import Tidymark.Diagnostic
import Tidymark.Dictionary
import Tidymark.Error
import Tidymark.Json.Printer

/-! # Configuration

Which rules run and how, and which files they run on. -/
namespace Tidymark

/-- A setting of a rule in one of its forms. -/
inductive RuleOption where
  | enabled (on : Bool)
  /-- A severity, or `off`. -/
  | severity (name : String)
  | options (value : Json)
  deriving Repr

/-- What a setting of a rule means. -/
structure RuleSetting where
  enabled : Bool
  /-- The severity, if it is not the one of the rule. -/
  severity : Option Severity
  /-- Whether fixes of the rule may be applied. -/
  fix : Bool
  options : Json

namespace RuleOption

def ofJson : Json → RuleOption
  | .bool on => enabled on
  | .str name => severity name
  | value => options value

def toJson : RuleOption → Json
  | enabled on => .bool on
  | severity name => .str name
  | options value => value

def isEnabled : RuleOption → Bool
  | enabled on => on
  | severity name => name != "off"
  | options value => ((value.get? "enabled").bind Json.asBool?).getD true

/-- The names in an object of options that do not belong to the rule. -/
def reserved : List String := ["enabled", "severity", "fix"]

def readSeverity (name : String) : Except LintError Severity :=
  (Severity.parse name).mapError fun unknown => .config unknown.message

def setting (option : RuleOption) : Except LintError RuleSetting :=
  match option with
  | enabled on => .ok ⟨on, none, true, .empty⟩
  | severity name =>
    if name == "off" then .ok ⟨false, none, true, .empty⟩
    else do
      let severity ← readSeverity name
      return ⟨true, some severity, true, .empty⟩
  | options (.obj fields) => do
    let value := Json.obj fields
    let fix := ((value.get? "fix").bind Json.asBool?).getD true
    let rest := Json.obj (fields.filter fun field => !reserved.contains field.1)
    match (value.get? "severity").bind Json.asStr? with
    | none => return ⟨option.isEnabled, none, fix, rest⟩
    | some "off" => return ⟨false, none, fix, rest⟩
    | some name =>
      let severity ← readSeverity name
      return ⟨option.isEnabled, some severity, fix, rest⟩
  | options value => .error (.config ("Rule options must be an object, got " ++ value.compact))

/-- The option for a rule that is turned on or off, keeping its other settings where they have a
place. -/
def withEnabled (on : Bool) : RuleOption → RuleOption
  | options (.obj fields) => options (.obj (Dictionary.insert "enabled" (.bool on) fields))
  | option => if on && option.isEnabled then option else enabled on

end RuleOption

structure Config where
  /-- Settings by the id or the name of a rule. -/
  rules : Dictionary String RuleOption
  /-- Patterns of files to look at; without any, all files are. -/
  included : List String
  /-- Patterns of files to leave out. -/
  excluded : List String
  fix : Bool
  /-- Whether fixes are only computed, not written. -/
  dryRun : Bool
  /-- How many files are worked on at once. -/
  jobs : Option Nat
  /-- Whether a file is copied before it is overwritten. -/
  backup : Bool
  maxPasses : Nat
  /-- How long a run may take, in seconds. -/
  timeout : Option Nat
  /-- The size in bytes above which files are not read. -/
  maxFileSize : Nat
  /-- The directory of the configuration file. -/
  baseDir : Option String
  deriving Repr

namespace Config

def defaultMaxPasses : Nat := 10

/-- Ten mebibytes. -/
def defaultMaxFileSize : Nat := 10 * 1024 * 1024

def default : Config where
  rules := []
  included := []
  excluded := []
  fix := false
  dryRun := false
  jobs := none
  backup := true
  maxPasses := defaultMaxPasses
  timeout := none
  maxFileSize := defaultMaxFileSize
  baseDir := none

/-- The names of configuration files in a directory; the first that exists counts. -/
def fileNames : List String := [".marklint.jsonc", ".marklint.json"]

/-- The option of a rule: under its id, or else under its name. -/
def ruleOption? (c : Config) (id name : String) : Option RuleOption :=
  (Dictionary.get? id c.rules).or (Dictionary.get? name c.rules)

/-- Turns a rule on or off. -/
def setRuleEnabled (c : Config) (key : String) (on : Bool) : Config :=
  let option :=
    match Dictionary.get? key c.rules with
    | some option => option.withEnabled on
    | none => .enabled on
  { c with rules := Dictionary.insert key option c.rules }

/-- The fields of the value that a configuration is written as. -/
def fields (c : Config) : List (String × Json) :=
  [("rules", .obj (c.rules.map fun (key, option) => (key, option.toJson))),
    ("include", .arr (c.included.map .str)), ("exclude", .arr (c.excluded.map .str)),
    ("fix", .bool c.fix), ("dry_run", .bool c.dryRun), ("backup", .bool c.backup),
    ("max_passes", .ofNat c.maxPasses), ("max_file_size", .ofNat c.maxFileSize)] ++
    (c.jobs.map fun n => ("jobs", .ofNat n)).toList ++
    (c.timeout.map fun n => ("timeout_secs", .ofNat n)).toList

def toJson (c : Config) : Json := .object c.fields

end Config
end Tidymark
