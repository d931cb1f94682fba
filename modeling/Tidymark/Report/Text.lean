import Tidymark.Registry
import Tidymark.Run

/-! # Reports for readers -/
namespace Tidymark.Report

/-- Text filled up with blanks to a width. -/
def pad (width : Nat) (s : String) : String :=
  s ++ String.ofList (List.replicate (width - s.length) ' ')

def diagnosticLine (d : Diagnostic) : String :=
  "  " ++ toString d.location.start.line ++ ":" ++ toString d.location.start.column ++ " " ++
    d.severity.name ++ " [" ++ d.ruleId ++ "]: " ++ d.message ++ "\n"

def failureLine (f : RuleFailure) : String :=
  "  rule " ++ f.ruleId ++ " failed in pass " ++ toString f.pass ++ ": " ++ f.error.message ++ "\n"

def fileText (f : FileReport) : String :=
  match f.outcome with
  | .error _ => ""
  | .ok result =>
    if result.diagnostics.isEmpty && result.errors.isEmpty then ""
    else "\n" ++ f.path ++ ":\n" ++ String.join (result.diagnostics.map diagnosticLine) ++
      String.join (result.errors.map failureLine)

/-- What the rules report, file by file. -/
def text (r : RunReport) : String :=
  String.join (r.files.map fileText) ++ "\nChecked " ++ toString r.files.length ++
    " files, found " ++ toString r.diagnosticCount ++ " issues\n"

/-- The files that changed, with the number of edits in them. -/
def fixedFiles (r : RunReport) : List (String × Nat) :=
  r.files.filterMap fun f =>
    match f.outcome with
    | .ok result => if result.changed then some (f.path, result.fixesApplied) else none
    | .error _ => none

/-- Whether a warning says that fixing came to no end. -/
def isUnconverged : PipelineWarning → Bool
  | .passCapReached _ | .oscillation .. => true
  | .skippedEdits .. => false

def unconvergedFiles (r : RunReport) : List String :=
  r.files.filterMap fun f =>
    match f.outcome with
    | .ok result => if result.warnings.any isUnconverged then some f.path else none
    | .error _ => none

/-- What was fixed, or would be if `dryRun` were off. -/
def fixSummary (r : RunReport) (dryRun : Bool) : String :=
  let fixed := fixedFiles r
  let total : Nat := fixed.foldr (fun (_, count) n => count + n) 0
  let unconverged := unconvergedFiles r
  let head :=
    if total = 0 then "No fixable issues found.\n"
    else
      "\n" ++ (if dryRun then "Would fix" else "Fixed") ++ " " ++ toString total ++
        " issues in " ++ toString fixed.length ++ " files:\n" ++
        String.join (fixed.map fun (path, count) =>
          "  " ++ path ++ ": " ++ toString count ++ " fixes\n") ++
        if dryRun then "\nRun without --dry-run to apply fixes.\n" else ""
  let tail :=
    if unconverged.isEmpty then ""
    else
      "\nFixes did not converge in " ++ toString unconverged.length ++ " file(s):\n" ++
        String.join (unconverged.map fun path => "  " ++ path ++ "\n")
  head ++ tail

/-- Which files failed, and how many were left out. -/
def failureSummary (r : RunReport) : String :=
  let failed := r.failures.filter fun (_, error) => !error.isCancelled
  let skipped := r.failures.countP fun (_, error) => error.isCancelled
  let head :=
    if failed.isEmpty then ""
    else
      "\n" ++ toString failed.length ++ " file(s) failed to lint:\n" ++
        String.join (failed.map fun (path, error) => "  " ++ path ++ ": " ++ error.message ++ "\n")
  let tail :=
    if r.cancelled then
      "\nRun cancelled; " ++ toString skipped ++ " file(s) were not processed.\n"
    else ""
  head ++ tail

/-- A table of the rules. -/
def rules {m : Type → Type} (registry : Registry m) : String :=
  String.join (registry.toList.map fun rule =>
    pad 6 rule.id ++ " " ++ pad 26 rule.name ++ " " ++
      pad 8 (if rule.canFix then "fixable" else "") ++ " " ++ rule.description ++ "\n")

end Tidymark.Report
