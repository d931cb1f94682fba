import Tidymark.Rule

/-! # The first line is a heading

Behind front matter and comments, a document starts with a heading of the level `level`, in
Markdown or in HTML. -/
namespace Tidymark.Rules.FirstHeading

def trimStart (t : Text) : Text := t.dropWhile Text.isWhitespace

/-- Front matter and HTML comments may come before the first heading. -/
def isPreamble (node : Node) : Bool :=
  match node.kind with
  | .frontMatter => true
  | .html => node.value.any fun html => (trimStart html).startsWith ['<', '!', '-', '-']
  | _ => false

/-- Whether a text starts with the tag of a heading of this level. -/
def opensHeading (level : Nat) (html : Text) : Except RuleError Bool := do
  let tag := '<' :: 'h' :: (toString level).toList
  match html.slice? 0 tag.length with
  | none => return false
  | some opening =>
    if opening.map Char.toLower != tag then return false
    let rest ← html.dropBytes tag.length
    return rest.head?.any fun c => c == '>' || c == ' ' || c == '\t' || c == '\n'

def isHeading (level : Nat) (node : Node) : Except RuleError Bool :=
  match node.headingDepth?, node.value with
  | some depth, _ => return depth == level
  | none, some html =>
    if node.kind == .html then opensHeading level (trimStart html) else return false
  | none, none => return false

def findings (ctx : RuleContext) (level : Nat) : Except RuleError (List Diagnostic) := do
  match ctx.snapshot.root.children.find? (!isPreamble ·) with
  | none => return []
  | some first =>
    if ← isHeading level first then return []
    let line ← ctx.line (ctx.snapshot.lineIndex first.span.start)
    return [ctx.report line.contentSpan
      ("First line in a file should be a level " ++ toString level ++ " heading")]

def steps (ctx : RuleContext) : Except RuleError (List (Except RuleError (List Diagnostic))) := do
  let level ← ctx.countOption "level" 1
  if level < 1 || 6 < level then .error (.invalidOption "level" "expected 1 to 6")
  else return [findings ctx level]

variable {m : Type → Type} [Monad m] [MonadCancel m]

def rule : Rule m :=
  .ofSteps "MD041" "first-line-heading" "First line in a file should be a top-level heading" false
    steps

end Tidymark.Rules.FirstHeading
