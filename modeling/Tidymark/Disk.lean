import Tidymark.Cancel
import Tidymark.Dictionary
import Tidymark.Files
import Tidymark.Path

/-! # A file system in memory

Files and directories below one directory, which all paths are seen from. There are no links, and
nothing outside. Operations may be set to fail on some of the files. -/
namespace Tidymark

inductive FileNode where
  | file (bytes : List UInt8)
  | directory
  deriving DecidableEq, Repr

def FileNode.kind : FileNode → FileKind
  | file bytes => .file bytes.length
  | directory => .directory

inductive FileAction where
  | kind | read | write | replace | create | remove
  deriving DecidableEq, Repr

/-- How an operation fails. -/
inductive Fault where
  /-- Nothing happens. -/
  | refused
  /-- A write breaks off, with so many bytes written. Other operations do nothing. -/
  | torn (kept : Nat)
  deriving DecidableEq, Repr

structure Disk where
  /-- What there is, by the names that lead to it. -/
  nodes : Dictionary (List String) FileNode
  /-- Which operations fail, by what they do and by the names that lead to their files. -/
  fault? : FileAction → List String → Option Fault

namespace Disk

/-- A disk on which nothing fails. -/
def ofNodes (nodes : Dictionary (List String) FileNode) : Disk := ⟨nodes, fun _ _ => none⟩

def empty : Disk := ofNodes []

def get? (d : Disk) (names : List String) : Option FileNode :=
  if names.isEmpty then some .directory else Dictionary.get? names d.nodes

def put (d : Disk) (names : List String) (node : FileNode) : Disk :=
  { d with nodes := Dictionary.insert names node d.nodes }

/-- Where a path leads from a node, by the names that lead to it. There need not be anything at the
last name. -/
def follow (d : Disk) (names : List String) : List (List Char) → Except FileError (List String)
  | [] => .ok names
  | piece :: rest =>
    match d.get? names with
    | none => .error .notFound
    | some (.file _) => .error .notDirectory
    | some .directory =>
      match Path.componentOf? piece with
      | none => follow d names rest
      | some (.name n) => follow d (names ++ [n]) rest
      | some _ => if names.isEmpty then .error .notFound else follow d names.dropLast rest

/-- Where a path leads. -/
def locate (d : Disk) (path : String) : Except FileError (List String) :=
  if path.isEmpty || Path.isAbsolute path then .error .notFound
  else d.follow [] (Path.pieces path.toList)

/-- What every operation that fails on its own account answers. -/
def fault : FileError := .other "Input/output error (os error 5)"

/-- What a path leads to, unless the operation fails there. -/
def lookUp (d : Disk) (action : FileAction) (path : String) : Except FileError FileNode := do
  let names ← d.locate path
  match d.get? names with
  | none => .error .notFound
  | some node => if (d.fault? action names).isSome then .error fault else .ok node

def read (d : Disk) (path : String) : Except FileError (List UInt8) := do
  match ← d.lookUp .read path with
  | .file bytes => .ok bytes
  | .directory => .error .isDirectory

/-- The names behind a beginning, if `names` begin so. -/
def behind? : List String → List String → Option (List String)
  | [], names => some names
  | _ :: _, [] => none
  | a :: start, b :: names => if a = b then behind? start names else none

/-- The files below `start`. -/
def filesBelow (d : Disk) (start : List String) : List (List String) :=
  d.nodes.filterMap fun (names, node) =>
    match node with
    | .file _ => behind? start names
    | .directory => none

def walk (d : Disk) (enters : String → Bool) (path : String) : List (List String) :=
  match d.locate path with
  | .ok start => (d.filesBelow start).filter (·.all enters)
  | .error _ => []

/-- Where a path leads, if there is a file or nothing. -/
def place (d : Disk) (path : String) : Except FileError (List String) := do
  let names ← d.locate path
  match d.get? names with
  | some .directory => .error .isDirectory
  | _ => .ok names

/-- Writes a file. If that fails, a part of it may be written. -/
def write (d : Disk) (path : String) (bytes : List UInt8) : Except FileError Unit × Disk :=
  match d.place path with
  | .error error => (.error error, d)
  | .ok names =>
    match d.fault? .write names with
    | none => (.ok (), d.put names (.file bytes))
    | some .refused => (.error fault, d)
    | some (.torn kept) => (.error fault, d.put names (.file (bytes.take kept)))

/-- Writes the whole file or nothing. -/
def replace (d : Disk) (path : String) (bytes : List UInt8) : Except FileError Unit × Disk :=
  match d.place path with
  | .error error => (.error error, d)
  | .ok names =>
    if (d.fault? .replace names).isSome then (.error fault, d)
    else (.ok (), d.put names (.file bytes))

def create (d : Disk) (path : String) (bytes : List UInt8) : Except FileError Unit × Disk :=
  match d.locate path with
  | .error error => (.error error, d)
  | .ok names =>
    if (d.get? names).isSome then (.error .alreadyThere, d)
    else if (d.fault? .create names).isSome then (.error fault, d)
    else (.ok (), d.put names (.file bytes))

def remove (d : Disk) (path : String) : Except FileError Unit × Disk :=
  match d.locate path with
  | .error error => (.error error, d)
  | .ok names =>
    match d.get? names with
    | none => (.error .notFound, d)
    | some .directory => (.error .isDirectory, d)
    | some (.file _) =>
      if (d.fault? .remove names).isSome then (.error fault, d)
      else (.ok (), { d with nodes := Dictionary.erase names d.nodes })

section
variable {n : Type → Type} [Monad n]

/-- The disk takes part in computations of any kind. -/
instance : MonadFiles (StateT Disk n) where
  kind path := do return ((← get).lookUp .kind path).map FileNode.kind
  read path := do return (← get).read path
  walk enters path := do return (← get).walk enters path
  write path bytes := modifyGet (·.write path bytes)
  replace path bytes := modifyGet (·.replace path bytes)
  create path bytes := modifyGet (·.create path bytes)
  remove path := modifyGet (·.remove path)

/-- The disk does not decide whether to stop. -/
instance [MonadCancel n] : MonadCancel (StateT Disk n) where
  isCancelled := liftM (MonadCancel.isCancelled : n Bool)

end

/-- Makes a directory below `above`, and those on the way that are missing. -/
def makeDirectory (d : Disk) (above : List String) : List String → Disk
  | [] => d
  | name :: rest =>
    let names := above ++ [name]
    makeDirectory (if (d.get? names).isSome then d else d.put names .directory) names rest

end Disk
end Tidymark
