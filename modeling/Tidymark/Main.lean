import Tidymark.CommandLine.Run

/-! # The program

The real file system and the real clock under the command line. -/
namespace Tidymark.Program

/-- Computations of the program: they share the token of the run. -/
abbrev App : Type → Type := ReaderT (IO.Ref (Token × Flags)) IO

/-- Runs a change of the flags. -/
def changeFlags (token : IO.Ref (Token × Flags)) (step : Token → StateM Flags (α × Token)) :
    IO α := do
  let (current, flags) ← token.get
  let ((answer, current), flags) := (step current).run flags
  token.set (current, flags)
  return answer

instance : MonadCancel App where
  isCancelled token := do
    let now ← IO.monoMsNow
    changeFlags token fun current => return (← current.isCancelled now, current)

/-- Gives the run a time limit in seconds. -/
def limit (seconds : Nat) : App Unit := fun token => do
  let now ← IO.monoMsNow
  changeFlags token fun _ => return ((), ← Token.withTimeout now seconds)

def errorOf : IO.Error → FileError
  | .noFileOrDirectory .. => .notFound
  | .alreadyExists .. => .alreadyThere
  | .inappropriateType _ code _ => if code = 20 then .notDirectory else .isDirectory
  | error => .other (toString error)

/-- An operation with its error as a value. -/
def guarded (op : IO α) : App (Except FileError α) := fun _ => do
  match ← op.toBaseIO with
  | .ok a => return .ok a
  | .error error => return .error (errorOf error)

/-- A path as an entry of the working directory. -/
def entry (path : String) : IO.FS.DirEntry := ⟨".", path⟩

def kindOf (path : String) : IO FileKind := do
  let data ← (entry path).path.metadata
  return match data.type with
  | .file => .file data.byteSize.toNat
  | .dir => .directory
  | _ => .special

/-- The files below a directory, on ways whose names may all be entered. -/
partial def walk (enters : String → Bool) (path : String) : IO (List (List String)) := do
  match ← kindOf path with
  | .file _ => return [[]]
  | .special => return []
  | .directory =>
    let mut found := []
    for child in ← (entry path).path.readDir do
      if enters child.fileName then
        let below ← walk enters (Path.join path child.fileName)
        found := found ++ below.map (child.fileName :: ·)
    return found

def write (path : String) (bytes : List UInt8) : IO Unit :=
  IO.FS.writeBinFile path ⟨bytes.toArray⟩

instance : MonadFiles App where
  kind path := guarded (kindOf path)
  read path := guarded do return (← IO.FS.readBinFile path).toList
  walk enters path := do
    match ← guarded (walk enters path) with
    | .ok found => return found
    | .error _ => return []
  write path bytes := guarded (write path bytes)
  replace path bytes := guarded do
    let fresh := path ++ ".tmp"
    write fresh bytes
    IO.FS.rename fresh path
  create path bytes := guarded do
    let handle ← IO.FS.Handle.mk path .writeNew
    handle.write ⟨bytes.toArray⟩
  remove path := guarded (IO.FS.removeFile path)

end Tidymark.Program

def main (arguments : List String) : IO UInt32 := do
  let token ← IO.mkRef (Tidymark.Token.new.run [])
  let output ← Tidymark.CommandLine.run Tidymark.Program.limit arguments token
  IO.print output.stdout
  IO.eprint output.stderr
  return output.code.toUInt32
