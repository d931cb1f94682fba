import Tidymark.Registry

/-! # Overrides

What the command line sets, wins over the configuration. -/
namespace Tidymark

structure Overrides where
  fix : Bool
  dryRun : Bool
  noBackup : Bool
  jobs : Option Nat
  maxPasses : Option Nat
  timeout : Option Nat
  /-- Rules to turn on, by id or name. -/
  enabled : List String
  /-- Rules to turn off, by id or name, also when they are in `enabled`. -/
  disabled : List String
  deriving DecidableEq, Repr

/-- A key that stands for no rule. -/
structure UnknownRule where
  key : String
  deriving DecidableEq, Repr

def UnknownRule.message (e : UnknownRule) : String := "Unknown rule: " ++ e.key

namespace Config

variable {m : Type → Type}

/-- The key under which a configuration holds a rule: its id, unless only its name has a
setting. -/
def keyOf (c : Config) (rule : Rule m) : String :=
  let has (key : String) := (Dictionary.get? key c.rules).isSome
  if !has rule.id && has rule.name then rule.name else rule.id

/-- Turns on or off what a key stands for. -/
def switchRule (registry : Registry m) (on : Bool) (c : Config) (key : String) :
    Except UnknownRule Config :=
  match registry.get? key with
  | some rule => .ok (c.setRuleEnabled (c.keyOf rule) on)
  | none => .error ⟨key⟩

/-- Turns on or off what some keys stand for. -/
def switchRules (registry : Registry m) (on : Bool) (c : Config) :
    List String → Except UnknownRule Config
  | [] => .ok c
  | key :: rest => do
    let c ← c.switchRule registry on key
    switchRules registry on c rest

/-- The settings of the command line that concern no single rule. -/
def overrideFlags (c : Config) (o : Overrides) : Config :=
  { c with
    fix := o.fix || c.fix
    dryRun := o.dryRun || c.dryRun
    backup := !o.noBackup && c.backup
    jobs := o.jobs.or c.jobs
    maxPasses := o.maxPasses.getD c.maxPasses
    timeout := o.timeout.or c.timeout }

/-- The configuration with the settings of the command line. -/
def override (registry : Registry m) (c : Config) (o : Overrides) : Except UnknownRule Config := do
  let c ← (c.overrideFlags o).switchRules registry true o.enabled
  c.switchRules registry false o.disabled

end Config
end Tidymark
