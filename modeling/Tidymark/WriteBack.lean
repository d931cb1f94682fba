import Tidymark.Files
import Tidymark.Pipeline
import Tidymark.Text.Utf8

/-! # Fixing files

A file is read, run through the pipeline and, if it changed, written back. Before that a copy is
made. If anything fails the file stays as it was. -/
namespace Tidymark

structure WriteOptions where
  /-- Whether nothing is written. -/
  dryRun : Bool
  /-- Whether a copy of the file is made before it is overwritten. -/
  backup : Bool
  /-- The size in bytes above which files are not read. -/
  maxFileSize : Nat
  deriving DecidableEq, Repr

/-- Where the copy of a file goes. -/
def backupPath (path : String) : String := path ++ ".bak"

variable {m : Type → Type} [Monad m] [MonadCancel m] [MonadFiles m]

/-- An operation on files, with its error put in words. -/
def fileStep (op : m (Except FileError α)) (explain : FileError → LintError) :
    ExceptT LintError m α := do
  match ← op with
  | .ok a => return a
  | .error error => throw (explain error)

/-- The bytes of a file that is not too large. -/
def readFile (options : WriteOptions) (path : String) : ExceptT LintError m (List UInt8) := do
  let kind ← fileStep (MonadFiles.kind path) fun e =>
    .file ("Failed to read metadata for " ++ path ++ ": " ++ e.reason)
  match kind with
  | .file size =>
    if options.maxFileSize < size then
      throw (.file ("File size exceeds limit of " ++ toString options.maxFileSize ++ " bytes: " ++
        path))
    fileStep (MonadFiles.read path) fun e =>
      .file ("Failed to read " ++ path ++ ": " ++ e.reason)
  | _ => throw (.file ("Not a regular file: " ++ path))

/-- Writes what came of a file back to it, if the file changed. Its old bytes go to the copy. -/
def writeBack (options : WriteOptions) (path : String) (bytes : List UInt8)
    (result : PipelineResult) : ExceptT LintError m PipelineResult := do
  if !result.changed || options.dryRun then return result
  if options.backup then
    let copy := backupPath path
    fileStep (MonadFiles.write copy bytes) fun e => .backup copy e.reason
  fileStep (MonadFiles.replace path (Text.encode result.finalContent)) fun e =>
    .file ("Failed to write " ++ path ++ ": " ++ e.reason)
  return { result with written := true }

/-- Runs the pipeline on a file. -/
def processFile (p : Pipeline m) (options : WriteOptions) (path : String) :
    ExceptT LintError m PipelineResult := do
  let bytes ← readFile options path
  let result ← p.run path bytes
  writeBack options path bytes result

end Tidymark
