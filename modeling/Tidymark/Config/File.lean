import Tidymark.Config.Reader
import Tidymark.Files
import Tidymark.Path
import Tidymark.Text.Utf8

/-! # Configuration files -/
namespace Tidymark.Config

variable {m : Type → Type} [Monad m] [MonadFiles m]

/-- The first of some paths that is a file. -/
def firstFile : List String → m (Option String)
  | [] => return none
  | path :: rest => do if ← isFile path then return some path else firstFile rest

/-- The configuration file of a directory, if it has one. -/
def discover (directory : String) : m (Option String) :=
  firstFile (fileNames.map (Path.join directory))

/-- What is said of bytes that are no text. -/
def notText : String := "stream did not contain valid UTF-8"

/-- Reads a configuration file, and notes the directory that it lies in. -/
def ofFile (path : String) : ExceptT LintError m Config := do
  let refuse (reason : String) : LintError :=
    .config ("Failed to read " ++ path ++ ": " ++ reason)
  match ← (MonadFiles.read path : m _) with
  | .error error => throw (refuse error.reason)
  | .ok bytes =>
    match Text.decode bytes with
    | .error _ => throw (refuse notText)
    | .ok text =>
      let config ← read text
      return { config with baseDir := Path.parent? path }

end Tidymark.Config
