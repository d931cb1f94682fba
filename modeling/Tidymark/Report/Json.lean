import Tidymark.Diagnostic.Json
import Tidymark.Run

/-! # Reports for programs -/
namespace Tidymark.Report

def failureJson (f : RuleFailure) : Json :=
  .object [("rule_id", .str f.ruleId), ("pass", .ofNat f.pass), ("message", .str f.error.message)]

def fileJson (f : FileReport) : Json :=
  match f.outcome with
  | .ok result =>
    .object [("path", .str f.path), ("status", .str "completed"),
      ("diagnostics", .arr (result.diagnostics.map Diagnostic.toJson)),
      ("changed", .bool result.changed), ("written", .bool result.written),
      ("passes", .ofNat result.passesRun), ("fixes_applied", .ofNat result.fixesApplied),
      ("warnings", .arr (result.warnings.map fun w => .str w.message)),
      ("rule_errors", .arr (result.errors.map failureJson))]
  | .error error =>
    .object [("path", .str f.path),
      ("status", .str (if error.isCancelled then "cancelled" else "failed")),
      ("error", .str error.message)]

/-- The outcome of each file, and totals. -/
def json (r : RunReport) : Json :=
  .object [("files", .arr (r.files.map fileJson)),
    ("summary", .object [("files", .ofNat r.files.length), ("failed", .ofNat r.failedCount),
      ("errors", .ofNat r.errorCount), ("warnings", .ofNat r.warningCount),
      ("fixes_applied", .ofNat r.fixesApplied), ("cancelled", .bool r.cancelled)])]

end Tidymark.Report
