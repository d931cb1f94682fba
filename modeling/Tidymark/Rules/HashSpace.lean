import Tidymark.Rule

/-! # A space behind the hashes

A line that starts with one to six hashes and goes on without white space is meant as a
heading. -/
namespace Tidymark.Rules.HashSpace

def findings (ctx : RuleContext) (line : Line) : Except RuleError (List Diagnostic) := do
  if line.verbatim || line.isBlank || 3 < line.indent then return []
  let text ← ctx.lineText line
  let content ← text.dropBytes line.indentBytes
  let hashes := (content.takeWhile (· == '#')).length
  if hashes < 1 || 6 < hashes then return []
  match ← content.dropBytes hashes with
  | [] => return []
  | next :: _ =>
    if Text.isWhitespace next then return []
    let behind := line.contentStart + hashes
    return [ctx.report ⟨line.contentStart, behind⟩ "No space after hash on atx style heading"
      [.insert behind [' ']]]

def steps (ctx : RuleContext) : Except RuleError (List (Except RuleError (List Diagnostic))) :=
  .ok (ctx.snapshot.lines.map (findings ctx))

variable {m : Type → Type} [Monad m] [MonadCancel m]

def rule : Rule m :=
  .ofSteps "MD018" "no-missing-space-atx" "No space after hash on atx style heading" true steps

end Tidymark.Rules.HashSpace
