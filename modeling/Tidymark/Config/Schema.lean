import Tidymark.Config

/-! # The schema of configuration files

What a configuration may hold. The first violation is reported, with the names of an object in
order. -/
namespace Tidymark.Config

inductive Problem where
  | wrongType (value : Json) (expected : String)
  | belowMinimum (value : Json) (minimum : Nat)
  | aboveMaximum (value : Json) (maximum : Nat)
  | unexpectedField (name : String)
  /-- The value of a rule is no switch, no severity and no object of options. -/
  | noForm (value : Json)

/-- A problem, and the names and indices that lead to it. -/
structure Violation where
  problem : Problem
  path : List String

namespace Problem

def describe : Problem → String
  | wrongType value expected => value.compact ++ " is not of type \"" ++ expected ++ "\""
  | belowMinimum value minimum =>
    value.compact ++ " is less than the minimum of " ++ toString minimum
  | aboveMaximum value maximum =>
    value.compact ++ " is greater than the maximum of " ++ toString maximum
  | unexpectedField name =>
    "Additional properties are not allowed ('" ++ name ++ "' was unexpected)"
  | noForm value =>
    value.compact ++ " is not valid under any of the schemas listed in the 'oneOf' keyword"

end Problem

/-- A step of a path: tildes and slashes are written as `~0` and `~1`. -/
def escapeStep (step : String) : String :=
  String.join (step.toList.map fun c =>
    if c == '~' then "~0" else if c == '/' then "~1" else c.toString)

def Violation.message (v : Violation) : String :=
  "Config validation failed: " ++ v.problem.describe ++ " at " ++
    String.join (v.path.map fun step => "/" ++ escapeStep step)

def requireBool : Json → Option Problem
  | .bool _ => none
  | value => some (.wrongType value "boolean")

def requireString : Json → Option Problem
  | .str _ => none
  | value => some (.wrongType value "string")

/-- Whether a decimal has no fraction. -/
def isWhole (d : Decimal) : Bool :=
  0 ≤ d.exponent || d.digits % Nat.pow 10 (-d.exponent).toNat == 0

/-- Whether a decimal is below a natural number. -/
def isBelow (d : Decimal) (n : Nat) : Bool :=
  d.negative && 0 < n ||
    d.digits * Nat.pow 10 d.exponent.toNat < n * Nat.pow 10 (-d.exponent).toNat

/-- Whether a decimal is above a natural number. -/
def isAbove (d : Decimal) (n : Nat) : Bool :=
  !d.negative && n * Nat.pow 10 (-d.exponent).toNat < d.digits * Nat.pow 10 d.exponent.toNat

/-- A whole number from one up to a maximum. -/
def requireWhole (maximum : Option Nat) (value : Json) : Option Problem :=
  match value with
  | .int n =>
    if n < 1 then some (.belowMinimum value 1)
    else maximum.bind fun m => if m < n then some (.aboveMaximum value m) else none
  | .decimal d =>
    if !isWhole d then some (.wrongType value "integer")
    else if isBelow d 1 then some (.belowMinimum value 1)
    else maximum.bind fun m => if isAbove d m then some (.aboveMaximum value m) else none
  | _ => some (.wrongType value "integer")

/-- A violation without a way to it. -/
def atRoot (problem : Option Problem) : Option Violation := problem.map fun p => ⟨p, []⟩

def Violation.under (step : String) (v : Violation) : Violation := ⟨v.problem, step :: v.path⟩

/-- The first violation among strings, the first of which has this index. -/
def requireStringsFrom (index : Nat) : List Json → Option Violation
  | [] => none
  | item :: rest =>
    match requireString item with
    | some problem => some ⟨problem, [toString index]⟩
    | none => requireStringsFrom (index + 1) rest

def requireStrings : Json → Option Violation
  | .arr items => requireStringsFrom 0 items
  | value => some ⟨.wrongType value "array", []⟩

def isSeverity : Json → Bool
  | .str name => name == "error" || name == "warning" || name == "info" || name == "off"
  | _ => false

def isBool (value : Json) : Bool := value.asBool?.isSome

/-- Whether a value is a setting of a rule. -/
def isRuleSetting (value : Json) : Bool :=
  match value with
  | .bool _ => true
  | .str _ => isSeverity value
  | .obj _ =>
    (value.get? "enabled").all isBool && (value.get? "severity").all isSeverity &&
      (value.get? "fix").all isBool
  | _ => false

def requireRules : Json → Option Violation
  | .obj fields => fields.findSome? fun (key, value) =>
    if isRuleSetting value then none else some ⟨.noForm value, [key]⟩
  | value => some ⟨.wrongType value "object", []⟩

/-- The violation of a field of a configuration. -/
def fieldViolation? (name : String) (value : Json) : Option Violation :=
  match name with
  | "$schema" => (atRoot (requireString value)).map (.under name)
  | "rules" => (requireRules value).map (.under name)
  | "include" | "exclude" => (requireStrings value).map (.under name)
  | "fix" | "dry_run" | "backup" => (atRoot (requireBool value)).map (.under name)
  | "jobs" | "timeout_secs" | "max_file_size" =>
    (atRoot (requireWhole none value)).map (.under name)
  | "max_passes" => (atRoot (requireWhole (some 100) value)).map (.under name)
  | _ => some ⟨.unexpectedField name, []⟩

/-- The first violation of a configuration. -/
def violation? : Json → Option Violation
  | .obj fields => fields.findSome? fun (name, value) => fieldViolation? name value
  | value => some ⟨.wrongType value "object", []⟩

end Tidymark.Config
