import Tidymark.Rule

/-! # Blank lines around headings

A heading at the top level has a blank line above it and one below. Directly behind front matter it
needs none above. -/
namespace Tidymark.Rules.HeadingBlanks

/-- The line above the `i`th one, if there is one. -/
def lineAbove (ctx : RuleContext) (i : Nat) : Except RuleError (Option Line) :=
  if i = 0 then return none else some <$> ctx.line (i - 1)

def findingsAbove (ctx : RuleContext) (first : Line) (above : Option Line) : List Diagnostic :=
  match above with
  | none => []
  | some above =>
    if above.isBlank || ctx.snapshot.frontMatter.any (·.contains above.start) then []
    else [ctx.report first.contentSpan "Expected a blank line above heading"
      [.insert first.start ['\n']]]

def findingsBelow (ctx : RuleContext) (last : Line) (below : Option Line) : List Diagnostic :=
  if below.any (!·.isBlank) then
    [ctx.report last.contentSpan "Expected a blank line below heading" [.insert last.stop ['\n']]]
  else []

def findings (ctx : RuleContext) (heading : Heading) : Except RuleError (List Diagnostic) := do
  let first ← ctx.line heading.line
  let above ← lineAbove ctx heading.line
  let lastByte := max (heading.span.stop - 1) heading.span.start
  let lastLine := ctx.snapshot.lineIndex lastByte
  let last ← ctx.line lastLine
  let below := ctx.snapshot.lines[lastLine + 1]?
  return findingsAbove ctx first above ++ findingsBelow ctx last below

def steps (ctx : RuleContext) : Except RuleError (List (Except RuleError (List Diagnostic))) :=
  .ok ((ctx.snapshot.headings.filter (·.topLevel)).map (findings ctx))

variable {m : Type → Type} [Monad m] [MonadCancel m]

def rule : Rule m :=
  .ofSteps "MD022" "blanks-around-headings" "Headings should be surrounded by blank lines" true
    steps

end Tidymark.Rules.HeadingBlanks
