import Tidymark.Config
import Tidymark.Rule

/-! # Registries

The rules that there are, in the order of their ids. A configuration chooses among them. -/
namespace Tidymark

structure Registry (m : Type → Type) where
  rules : Dictionary String (Rule m)

namespace Registry

variable {m : Type → Type}

def empty : Registry m := ⟨[]⟩

/-- Adds a rule, in the place of a rule with the same id. -/
def register (r : Registry m) (rule : Rule m) : Registry m :=
  ⟨Dictionary.insert rule.id rule r.rules⟩

def ofList (rules : List (Rule m)) : Registry m := rules.foldl register empty

def toList (r : Registry m) : List (Rule m) := Dictionary.values r.rules

def size (r : Registry m) : Nat := r.rules.length

def isEmpty (r : Registry m) : Bool := r.rules.isEmpty

def ids (r : Registry m) : List String := Dictionary.keys r.rules

/-- The ids between brackets, each quoted. -/
def describe (r : Registry m) : String :=
  "[" ++ ", ".intercalate (r.ids.map fun id => Text.quote id.toList) ++ "]"

/-- Whether two texts differ at most in the case of ASCII letters. -/
def sameCaseless (s t : String) : Bool := s.toList.map Char.toLower == t.toList.map Char.toLower

/-- The rule with this id, in upper or lower case, or with this name. -/
def get? (r : Registry m) (key : String) : Option (Rule m) :=
  (Dictionary.get? key r.rules).or
    (r.toList.find? fun rule => sameCaseless rule.id key || rule.name == key)

/-- A rule with the settings that a configuration gives it, if it is enabled. -/
def activate (config : Config) (rule : Rule m) : Except LintError (Option (ActiveRule m)) :=
  match config.ruleOption? rule.id rule.name with
  | none => .ok (if rule.enabledByDefault then some (.ofRule rule) else none)
  | some option => do
    let setting ← option.setting
    return if setting.enabled then
      some ⟨rule, setting.severity.getD rule.severity, setting.options, setting.fix⟩
    else none

def activateAll (config : Config) : List (Rule m) → Except LintError (List (ActiveRule m))
  | [] => .ok []
  | rule :: rest => do
    let active ← activate config rule
    let others ← activateAll config rest
    return active.toList ++ others

/-- The enabled rules in the order of their ids. A configuration may not name other rules than
these. -/
def resolve (r : Registry m) (config : Config) : Except LintError (List (ActiveRule m)) :=
  match (Dictionary.keys config.rules).find? fun key => (r.get? key).isNone with
  | some key => .error (.config ("Unknown rule '" ++ key ++ "'"))
  | none => activateAll config r.toList

end Registry
end Tidymark
