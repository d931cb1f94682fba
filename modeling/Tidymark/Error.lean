import Tidymark.Edit
import Tidymark.Parser

/-! # Errors

Why a file or a whole run fails. -/
namespace Tidymark

inductive LintError where
  | config (message : String)
  | file (message : String)
  | parse (error : ParseError)
  | edit (error : EditError)
  /-- The backup could not be written, for a reason that the system gives. -/
  | backup (path reason : String)
  | cancelled
  | internal (message : String)
  deriving DecidableEq, Repr

namespace LintError

def message : LintError → String
  | config message => "Configuration error: " ++ message
  | file message => "File error: " ++ message
  | parse error => "Parse error: " ++ error.message
  | edit error => "Invalid edit: " ++ error.message
  | backup path reason => "Backup failed for " ++ path ++ ": " ++ reason
  | cancelled => "Cancelled"
  | internal message => "Internal error: " ++ message

def isCancelled : LintError → Bool
  | cancelled => true
  | _ => false

end LintError
end Tidymark
