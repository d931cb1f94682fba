import Tidymark.Rule

/-! # Trailing spaces

A line ends in no space or tab. Exactly `br_spaces` spaces are kept where they break a line that
goes on below. -/
namespace Tidymark.Rules.TrailingSpaces

/-- Whether the blanks at the end of a line are a hard break of `width` spaces. -/
def isHardBreak (width : Nat) (line : Line) (next : Option Line) (trailing : Text) : Bool :=
  2 ≤ width && !line.isBlank && trailing.size == width && trailing.all (· == ' ') &&
    next.any fun l => !l.isBlank && !l.verbatim

/-- Each line with the one below. -/
def withNext : List Line → List (Line × Option Line)
  | [] => []
  | line :: rest => (line, rest.head?) :: withNext rest

def findings (ctx : RuleContext) (width : Nat) (line : Line) (next : Option Line) :
    Except RuleError (List Diagnostic) := do
  if line.verbatim then return []
  let text ← ctx.lineText line
  let kept := Text.size (Text.trimEndBy Text.isSpaceOrTab text)
  let trailing ← text.dropBytes kept
  if trailing.isEmpty || isHardBreak width line next trailing then return []
  let span : Span := ⟨line.start + kept, line.newlineStart⟩
  return [ctx.report span ("Expected: 0 trailing spaces; Actual: " ++ toString trailing.size)
    [.deleteSpan span]]

def steps (ctx : RuleContext) : Except RuleError (List (Except RuleError (List Diagnostic))) := do
  let width ← ctx.countOption "br_spaces" 2
  return (withNext ctx.snapshot.lines).map fun (line, next) => findings ctx width line next

variable {m : Type → Type} [Monad m] [MonadCancel m]

def rule : Rule m := .ofSteps "MD009" "no-trailing-spaces" "Trailing spaces" true steps

end Tidymark.Rules.TrailingSpaces
