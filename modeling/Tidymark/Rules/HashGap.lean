import Tidymark.Rule

/-! # One space behind the hashes

Between the hashes of a heading and its text there is one space. -/
namespace Tidymark.Rules.HashGap

/-- Where the blanks behind the hashes are, if there are several and text follows. -/
def gap? (start : Nat) (text : Text) : Except RuleError (Option Span) := do
  let indent := (text.takeWhile Text.isSpaceOrTab).length
  let hashes := ((← text.dropBytes indent).takeWhile (· == '#')).length
  let gap := ((← text.dropBytes (indent + hashes)).takeWhile Text.isSpaceOrTab).length
  if gap ≤ 1 || indent + hashes + gap == text.size then return none
  return some ⟨start + indent + hashes, start + indent + hashes + gap⟩

def findings (ctx : RuleContext) (heading : Heading) : Except RuleError (List Diagnostic) := do
  if heading.setext then return []
  let line ← ctx.line heading.line
  let text ← ctx.slice heading.span.start line.newlineStart
  match ← gap? heading.span.start text with
  | none => return []
  | some span =>
    return [ctx.report span "Multiple spaces after hash on atx style heading"
      [.replaceSpan span [' ']]]

def steps (ctx : RuleContext) : Except RuleError (List (Except RuleError (List Diagnostic))) :=
  .ok (ctx.snapshot.headings.map (findings ctx))

variable {m : Type → Type} [Monad m] [MonadCancel m]

def rule : Rule m :=
  .ofSteps "MD019" "no-multiple-space-atx" "Multiple spaces after hash on atx style heading" true
    steps

end Tidymark.Rules.HashGap
