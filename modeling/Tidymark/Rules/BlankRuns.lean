import Tidymark.Rule

/-! # Blank runs

At most `maximum` blank lines follow each other. Blank lines of code do not count. -/
namespace Tidymark.Rules.BlankRuns

/-- Each line with its place in a run of blank lines, counted from one; other lines have place
zero. `before` is the place of the line above. -/
def withPlace (before : Nat) : List Line → List (Line × Nat)
  | [] => []
  | line :: rest =>
    let place := if !line.isBlank || line.verbatim then 0 else before + 1
    (line, place) :: withPlace place rest

def findings (ctx : RuleContext) (maximum : Nat) (line : Line) (place : Nat) : List Diagnostic :=
  if maximum < place then
    [ctx.report line.contentSpan
      ("Expected: " ++ toString maximum ++ "; Actual: " ++ toString place)
      [.deleteSpan line.span]]
  else []

def steps (ctx : RuleContext) : Except RuleError (List (Except RuleError (List Diagnostic))) := do
  let maximum ← ctx.countOption "maximum" 1
  return (withPlace 0 ctx.snapshot.lines).map fun (line, place) =>
    .ok (findings ctx maximum line place)

variable {m : Type → Type} [Monad m] [MonadCancel m]

def rule : Rule m :=
  .ofSteps "MD012" "no-multiple-blanks" "Multiple consecutive blank lines" true steps

end Tidymark.Rules.BlankRuns
