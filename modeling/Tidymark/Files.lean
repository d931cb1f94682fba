/-! # Files

What the library asks of a file system. -/
namespace Tidymark

inductive FileError where
  | notFound | notDirectory | isDirectory | alreadyThere
  | other (reason : String)
  deriving DecidableEq, Repr

/-- What the system says. -/
def FileError.reason : FileError → String
  | notFound => "No such file or directory (os error 2)"
  | notDirectory => "Not a directory (os error 20)"
  | isDirectory => "Is a directory (os error 21)"
  | alreadyThere => "File exists (os error 17)"
  | other reason => reason

inductive FileKind where
  | file (size : Nat)
  | directory
  | special
  deriving DecidableEq, Repr

def FileKind.isFile : FileKind → Bool
  | file _ => true
  | _ => false

class MonadFiles (m : Type → Type) where
  kind : String → m (Except FileError FileKind)
  read : String → m (Except FileError (List UInt8))
  /-- The files in a directory and below it, each by the names that lead to it, if all of
  these may be entered; for a file, the file itself. -/
  walk (enters : String → Bool) : String → m (List (List String))
  /-- Writes a file, which may leave it half written. -/
  write : String → List UInt8 → m (Except FileError Unit)
  /-- Puts a new file in the place of an old one, or leaves the old one as it is. -/
  replace : String → List UInt8 → m (Except FileError Unit)
  /-- Writes a file that must not exist yet. -/
  create : String → List UInt8 → m (Except FileError Unit)
  remove : String → m (Except FileError Unit)

variable {m : Type → Type} [Monad m] [MonadFiles m]

def isFile (path : String) : m Bool := do
  match ← MonadFiles.kind path with
  | .ok kind => return kind.isFile
  | .error _ => return false

def isDirectory (path : String) : m Bool := do
  match ← MonadFiles.kind path with
  | .ok kind => return kind == .directory
  | .error _ => return false

end Tidymark
