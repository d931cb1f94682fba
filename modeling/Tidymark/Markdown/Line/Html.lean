import Tidymark.Markdown.Block
import Tidymark.Markdown.Tag

/-! # HTML blocks

How an HTML block opens, and by what it ends. -/
namespace Tidymark.Markdown.Line

inductive HtmlKind where
  /-- An element whose content is not markup, up to a closing tag of such an element. -/
  | raw
  | comment
  | instruction
  | declaration
  | cdata
  /-- Other tags, up to the next blank line. -/
  | tags
  deriving DecidableEq, Repr

/-- Elements whose content is not markup. -/
def rawElements : List String := ["pre", "script", "style", "textarea"]

/-- Elements that are blocks. -/
def blockElements : List String :=
  ["address", "article", "aside", "base", "basefont", "blockquote", "body", "caption", "center",
   "col", "colgroup", "dd", "details", "dialog", "dir", "div", "dl", "dt", "fieldset",
   "figcaption", "figure", "footer", "form", "frame", "frameset", "h1", "h2", "h3", "h4", "h5",
   "h6", "head", "header", "hr", "html", "iframe", "legend", "li", "link", "main", "menu",
   "menuitem", "nav", "noframes", "ol", "optgroup", "option", "p", "param", "search", "section",
   "summary", "table", "tbody", "td", "tfoot", "th", "thead", "title", "tr", "track", "ul"]

def lowerName (cells : List Cell) : String :=
  String.ofList ((Cells.chars cells).map Char.toLower)

/-- Whether `p` occurs in `t`. -/
def occursIn (p : List Char) : List Char → Bool
  | [] => p.isEmpty
  | c :: t => p.isPrefixOf (c :: t) || occursIn p t

def endsCdata : List Char → Bool
  | ']' :: ']' :: '>' :: _ => true
  | ']' :: ']' :: t => endsCdata t
  | _ :: t => endsCdata t
  | [] => false

def endsRaw : List Char → Bool
  | '<' :: '/' :: t =>
    rawElements.any (fun name => (name.toList ++ ['>']).isPrefixOf (t.map Char.toLower)) ||
      endsRaw t
  | _ :: t => endsRaw t
  | [] => false

/-- Whether a line ends a block of this kind. -/
def HtmlKind.endsIn (kind : HtmlKind) (line : List Char) : Bool :=
  match kind with
  | raw => endsRaw line
  | comment => occursIn ['-', '-', '>'] line
  | instruction => occursIn ['?', '>'] line
  | declaration => line.contains '>'
  | cdata => endsCdata line
  | tags => false

/-- A tag on its own line: only blanks may follow it. -/
def isAlone (behind : Option (List Cell)) : Bool := behind.any Cells.allBlank

/-- The kind of block that a tag opens; `name` and what is behind it follow the angle bracket and
the slash of a closing tag. Unknown elements need a complete tag that stands alone. -/
def tagKind? (closing interrupts : Bool) (cells : List Cell) : Option (HtmlKind × Bool) :=
  let behind := Scan.many Tag.isNameChar cells
  let name := lowerName (Cells.before cells behind)
  let slash := Cells.headChar? behind == some '/'
  if !(behind.head?.all fun c => Tag.isBoundary c.char) then none
  else if !slash && !closing && rawElements.contains name then
    some (.raw, endsRaw (Cells.chars behind))
  else if blockElements.contains name then
    if !slash || (Scan.chars ['/', '>'] behind).isSome then some (.tags, false) else none
  else if interrupts then none
  else
    let complete :=
      if closing then Scan.char '>' (Cells.dropBlanks behind)
      else Tag.attributes true (2 * behind.length + 2) behind
    if isAlone complete then some (.tags, false) else none

/-- The kind of HTML block that a line opens, and whether it ends on the same line. With
`interrupts` the line would end a paragraph, which a tag of an unknown element does not. -/
def openHtml? (interrupts : Bool) (cells : List Cell) : Option (HtmlKind × Bool) := do
  let rest ← Scan.char '<' (Cells.dropIndent cells)
  match Cells.chars rest with
  | '!' :: '-' :: '-' :: t =>
    some (.comment, (t.dropWhile (· == '-')).head? == some '>' || HtmlKind.comment.endsIn t)
  | '!' :: '[' :: 'C' :: 'D' :: 'A' :: 'T' :: 'A' :: '[' :: t => some (.cdata, endsCdata t)
  | '!' :: c :: t => if isAlpha c then some (.declaration, t.contains '>') else none
  | '?' :: t => some (.instruction, t.head? == some '>' || HtmlKind.instruction.endsIn t)
  | '/' :: c :: _ => if isAlpha c then tagKind? true interrupts (rest.drop 1) else none
  | c :: _ => if isAlpha c then tagKind? false interrupts rest else none
  | [] => none

end Tidymark.Markdown.Line
