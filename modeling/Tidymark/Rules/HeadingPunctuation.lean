import Tidymark.Rule

/-! # No punctuation at the end of headings

The text of a heading does not end in one of the characters of `punctuation`. A semicolon that
ends a character reference may stay. -/
namespace Tidymark.Rules.HeadingPunctuation

def defaultPunctuation : String := ".,;:!"

/-- The content of a heading line: without the blanks at the end and without closing hashes. -/
def content (text : Text) : Text :=
  let text := Text.trimEndBy Text.isWhitespace text
  let unclosed := Text.trimEndBy (· == '#') text
  if unclosed.length < text.length && unclosed.getLast?.any Text.isSpaceOrTab then
    Text.trimEndBy Text.isWhitespace unclosed
  else text

/-- Whether a text ends in `&`, perhaps `#`, letters or digits, and a semicolon. -/
def endsInReference (text : Text) : Except RuleError Bool :=
  match text.reverse with
  | ';' :: body =>
    match Text.rfind? '&' body.reverse with
    | none => return false
    | some ampersand => do
      let name ← Text.dropBytes body.reverse (ampersand + 1)
      let name := if name.head? == some '#' then name.drop 1 else name
      return !name.isEmpty && name.all Char.isAlphanum
  | _ => return false

/-- The line that the text of a heading ends on: of an underlined heading, the line above the
underline. -/
def textLine (snapshot : Snapshot) (heading : Heading) : Nat :=
  if heading.setext then snapshot.lineIndex (heading.span.stop - 1) - 1 else heading.line

def findings (ctx : RuleContext) (punctuation : Text) (heading : Heading) :
    Except RuleError (List Diagnostic) := do
  let line ← ctx.line (textLine ctx.snapshot heading)
  let start := max line.start heading.span.start
  let text ← ctx.slice start line.newlineStart
  let content : Text :=
    if heading.setext then Text.trimEndBy Text.isWhitespace text else content text
  let kept : Text := Text.trimEndBy punctuation.contains content
  if kept.size = content.size then return []
  if ← endsInReference content then return []
  let span : Span := ⟨start + kept.size, start + content.size⟩
  let ending ← content.dropBytes kept.size
  return [ctx.report span ("Punctuation: '" ++ String.ofList ending ++ "'") [.deleteSpan span]]

def steps (ctx : RuleContext) : Except RuleError (List (Except RuleError (List Diagnostic))) := do
  let punctuation ← ctx.stringOption "punctuation" defaultPunctuation
  return ctx.snapshot.headings.map (findings ctx punctuation.toList)

variable {m : Type → Type} [Monad m] [MonadCancel m]

def rule : Rule m :=
  .ofSteps "MD026" "no-trailing-punctuation" "Trailing punctuation in heading" true steps

end Tidymark.Rules.HeadingPunctuation
