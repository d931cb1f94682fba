import Tidymark.Rule

/-! # Headings start left

A heading at the top level is not indented. -/
namespace Tidymark.Rules.HeadingIndent

def findings (ctx : RuleContext) (heading : Heading) : Except RuleError (List Diagnostic) := do
  let line ← ctx.line heading.line
  if line.indentBytes = 0 then return []
  let span : Span := ⟨line.start, line.contentStart⟩
  return [ctx.report span "Headings must start at the beginning of the line" [.deleteSpan span]]

def steps (ctx : RuleContext) : Except RuleError (List (Except RuleError (List Diagnostic))) :=
  .ok ((ctx.snapshot.headings.filter (·.topLevel)).map (findings ctx))

variable {m : Type → Type} [Monad m] [MonadCancel m]

def rule : Rule m :=
  .ofSteps "MD023" "heading-start-left" "Headings must start at the beginning of the line" true
    steps

end Tidymark.Rules.HeadingIndent
