import Tidymark.Edit.Plan
import Tidymark.Rule

/-! # Idempotency of rules

A rule with fixes should find nothing to fix once they are applied. -/
namespace Tidymark

inductive IdempotencyError where
  | parse (error : ParseError)
  | rule (error : RuleError)
  | edit (error : EditError)
  /-- So many fixable diagnostics remain on the content after fixing. -/
  | remaining (count : Nat) (content : Text)
  deriving DecidableEq, Repr

def IdempotencyError.message : IdempotencyError → String
  | parse error => error.message
  | rule error => "rule failed: " ++ error.message
  | edit error => error.message
  | remaining count content =>
    toString count ++ " fixable diagnostic(s) remain after fixing:\n" ++ String.ofList content

variable {m : Type → Type} [Monad m]

/-- What a rule reports on a text. -/
def ActiveRule.lint (rule : ActiveRule m) (parser : Parser m) (source : Text) :
    ExceptT IdempotencyError m (List Diagnostic) := do
  match ← (Snapshot.ofSource parser "<idempotency>" source : m _) with
  | .error error => throw (.parse error)
  | .ok snapshot =>
    match ← (rule.check snapshot).run with
    | .error error => throw (.rule error)
    | .ok diagnostics => return diagnostics

/-- Applies all fixes of a rule, and answers the fixed text if the rule has none left for it. -/
def ActiveRule.fixOnce (rule : ActiveRule m) (parser : Parser m) (source : Text) :
    ExceptT IdempotencyError m Text := do
  let diagnostics ← rule.lint parser source
  match EditPlan.prepareStrictly source (diagnostics.flatMap (·.edits)) with
  | .error error => throw (.edit error)
  | .ok plan =>
    let fixed := plan.applyTo source
    let rest := (← rule.lint parser fixed).countP (·.isFixable)
    if 0 < rest then throw (.remaining rest fixed)
    return fixed

end Tidymark
