import Tidymark.Diagnostic
import Tidymark.Json

/-! # Diagnostics as JSON

Offsets, lines and columns are below 2 ^ 32. A record may be written as an object, or as the array
of its fields. -/
namespace Tidymark

def Span.toJson (s : Span) : Json :=
  .object [("start", .ofNat s.start), ("end", .ofNat s.stop)]

def Position.toJson (p : Position) : Json :=
  .object [("line", .ofNat p.line), ("column", .ofNat p.column)]

def Location.toJson (l : Location) : Json :=
  .object [("start", l.start.toJson), ("end", l.stop.toJson)]

def Edit.toJson (e : Edit) : Json :=
  .object [("start", .ofNat e.start), ("end", .ofNat e.stop),
    ("replacement", .str (String.ofList e.replacement))]

/-- A suggestion and edits are left out if there are none. -/
def Diagnostic.toJson (d : Diagnostic) : Json :=
  .object ([("rule_id", .str d.ruleId), ("rule_name", .str d.ruleName), ("span", d.span.toJson),
      ("loc", d.location.toJson), ("message", .str d.message),
      ("severity", .str d.severity.name)] ++
    (d.suggestion.map fun s => ("suggestion", .str s)).toList ++
    if d.edits.isEmpty then [] else [("edits", .arr (d.edits.map Edit.toJson))])

namespace Json

/-- A natural number below 2 ^ 32. -/
def asOffset? (value : Json) : Option Nat :=
  match value.asNat? with
  | some n => if n < Nat.pow 2 32 then some n else none
  | none => none

/-- The fields of a record with these names; a missing one is `none`. -/
def record? (names : List String) : Json → Option (List (Option Json))
  | obj fields => some (names.map fun name => Dictionary.get? name fields)
  | arr items =>
    if items.length ≤ names.length then
      some (items.map some ++ List.replicate (names.length - items.length) none)
    else none
  | _ => none

end Json

def Span.ofJson? (value : Json) : Option Span :=
  match value.record? ["start", "end"] with
  | some [some start, some stop] => return ⟨← start.asOffset?, ← stop.asOffset?⟩
  | _ => none

def Position.ofJson? (value : Json) : Option Position :=
  match value.record? ["line", "column"] with
  | some [some line, some column] => return ⟨← line.asOffset?, ← column.asOffset?⟩
  | _ => none

def Location.ofJson? (value : Json) : Option Location :=
  match value.record? ["start", "end"] with
  | some [some start, some stop] => return ⟨← Position.ofJson? start, ← Position.ofJson? stop⟩
  | _ => none

def Edit.ofJson? (value : Json) : Option Edit :=
  match value.record? ["start", "end", "replacement"] with
  | some [some start, some stop, some replacement] =>
    return ⟨← start.asOffset?, ← stop.asOffset?, (← replacement.asStr?).toList⟩
  | _ => none

namespace Diagnostic

def severityField? : Option Json → Option Severity
  | none => some .error
  | some value => value.asStr?.bind Severity.ofName?

def suggestionField? : Option Json → Option (Option String)
  | none | some .null => some none
  | some value => value.asStr?.map some

def editsField? : Option Json → Option (List Edit)
  | none => some []
  | some value => value.asArr?.bind fun items => items.mapM Edit.ofJson?

/-- Reads a diagnostic. Without a severity it is an error. -/
def ofJson? (value : Json) : Option Diagnostic :=
  match value.record?
      ["rule_id", "rule_name", "span", "loc", "message", "severity", "suggestion", "edits"] with
  | some [some id, some name, some span, some location, some message, severity, suggestion,
      edits] =>
    return {
      ruleId := ← id.asStr?
      ruleName := ← name.asStr?
      span := ← Span.ofJson? span
      location := ← Location.ofJson? location
      message := ← message.asStr?
      severity := ← severityField? severity
      suggestion := ← suggestionField? suggestion
      edits := ← editsField? edits }
  | _ => none

/-- Reads a list of diagnostics. -/
def listOfJson? (value : Json) : Option (List Diagnostic) :=
  value.asArr?.bind fun items => items.mapM ofJson?

end Diagnostic
end Tidymark
