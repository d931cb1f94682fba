import Tidymark.Rule

/-! # One newline at the end

The last line that is not blank ends in a newline, and nothing follows it. Blank lines of code
stay. -/
namespace Tidymark.Rules.FinalNewline

def isContent (line : Line) : Bool := !line.isBlank || line.verbatim

/-- The lines up to the first one with content. -/
def untilContent : List Line → List Line
  | [] => []
  | line :: rest => line :: if isContent line then [] else untilContent rest

def findings (ctx : RuleContext) (last : Line) : List Diagnostic :=
  let size := ctx.snapshot.source.size
  let message := "Files should end with a single newline character"
  if !isContent last then []
  else if !last.hasNewline then [ctx.report (.empty size) message [.insert size ['\n']]]
  else if last.stop < size then
    [ctx.report ⟨last.stop, size⟩ message [.delete last.stop size]]
  else []

def steps (ctx : RuleContext) : Except RuleError (List (Except RuleError (List Diagnostic))) :=
  .ok ((untilContent ctx.snapshot.lines.reverse).map fun line => .ok (findings ctx line))

variable {m : Type → Type} [Monad m] [MonadCancel m]

def rule : Rule m :=
  .ofSteps "MD047" "single-trailing-newline" "Files should end with a single newline character"
    true steps

end Tidymark.Rules.FinalNewline
