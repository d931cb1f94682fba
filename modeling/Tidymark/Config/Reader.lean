import Tidymark.Config.Schema
import Tidymark.Json.Reader

/-! # Reading configurations

A configuration is JSON with comments. What it does not set keeps its default. -/
namespace Tidymark.Config

/-- A number that has no exponent, at least one digit behind the point, and nothing behind it but
zeros. -/
def plain (d : Decimal) : String :=
  let scale := Nat.pow 10 (-d.exponent).toNat
  (if d.negative then "-" else "") ++
    toString (d.digits * Nat.pow 10 d.exponent.toNat / scale) ++ ".0"

/-- A field that holds a whole number, if it is there. A whole number in decimal notation passes
the schema but is refused here. -/
def wholeField (value : Json) (name type : String) : Except String (Option Nat) :=
  match value.get? name with
  | some (.decimal d) =>
    .error ("invalid type: floating point `" ++ plain d ++ "`, expected " ++ type)
  | some field => .ok field.asNat?
  | none => .ok none

def stringsField (value : Json) (name : String) : List String :=
  (((value.get? name).bind Json.asArr?).getD []).filterMap Json.asStr?

def boolField (value : Json) (name : String) (fallback : Bool) : Bool :=
  ((value.get? name).bind Json.asBool?).getD fallback

def rulesField (value : Json) : Dictionary String RuleOption :=
  match value.get? "rules" with
  | some (.obj fields) => fields.map fun (key, option) => (key, RuleOption.ofJson option)
  | _ => []

/-- The configuration that a value of the schema stands for. -/
def ofJson (value : Json) : Except String Config := do
  let jobs ← wholeField value "jobs" "usize"
  let maxFileSize ← wholeField value "max_file_size" "u64"
  let maxPasses ← wholeField value "max_passes" "usize"
  let timeout ← wholeField value "timeout_secs" "u64"
  return {
    rules := rulesField value
    included := stringsField value "include"
    excluded := stringsField value "exclude"
    fix := boolField value "fix" false
    dryRun := boolField value "dry_run" false
    jobs := jobs
    backup := boolField value "backup" true
    maxPasses := maxPasses.getD defaultMaxPasses
    timeout := timeout
    maxFileSize := maxFileSize.getD defaultMaxFileSize
    baseDir := none }

/-- The value of a configuration's text; a text without a value is an empty object. -/
def readValue (text : Text) : Except LintError Json :=
  match Json.read text with
  | .malformed => .error (.config "Invalid JSON")
  | .nothing => .ok .empty
  | .value value => .ok value

/-- The configuration of a JSON value. -/
def check (value : Json) : Except LintError Config :=
  match violation? value with
  | some violation => .error (.config violation.message)
  | none => (ofJson value).mapError fun problem => .config ("Invalid config: " ++ problem)

def read (text : Text) : Except LintError Config := do
  let value ← readValue text
  check value

end Tidymark.Config
