import Tidymark.Edit

/-! # Diagnostics

What rules report, and the order in which a report lists it. -/
namespace Tidymark

inductive Severity where
  | error | warning | info
  deriving DecidableEq, Repr

/-- A name, in lower case, that is no severity. -/
structure UnknownSeverity where
  name : String
  deriving DecidableEq, Repr

def UnknownSeverity.message (e : UnknownSeverity) : String := "unknown severity '" ++ e.name ++ "'"

namespace Severity

def name : Severity → String
  | error => "error"
  | warning => "warning"
  | info => "info"

/-- The severity of a name in lower case. -/
def ofName? (s : String) : Option Severity := [error, warning, info].find? (·.name == s)

/-- An upper-case ASCII letter in lower case. -/
def lower (c : Char) : Char := if 'A' ≤ c && c ≤ 'Z' then Char.ofNat (c.toNat + 32) else c

/-- Reads a severity in upper or lower case. -/
def parse (s : String) : Except UnknownSeverity Severity :=
  let name := String.ofList (s.toList.map lower)
  if name == "warn" then .ok warning
  else match ofName? name with
    | some severity => .ok severity
    | none => .error ⟨name⟩

end Severity

structure Diagnostic where
  ruleId : String
  ruleName : String
  span : Span
  location : Location
  message : String
  severity : Severity
  suggestion : Option String
  edits : List Edit
  deriving DecidableEq, Repr

namespace Diagnostic

def isFixable (d : Diagnostic) : Bool := !d.edits.isEmpty

/-- The order of reports: by span, then by rule, then by message. -/
def atMost (d e : Diagnostic) : Bool :=
  if d.span != e.span then d.span.before e.span
  else if d.ruleId != e.ruleId then d.ruleId < e.ruleId
  else d.message ≤ e.message

/-- The diagnostics in the order of reports, of equal neighbours one. -/
def arrange (diagnostics : List Diagnostic) : List Diagnostic :=
  (diagnostics.mergeSort atMost).eraseReps

end Diagnostic
end Tidymark
