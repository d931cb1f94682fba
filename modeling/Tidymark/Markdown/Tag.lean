import Tidymark.Markdown.Scan

/-! # Tags

The tags of HTML, as they occur on a line of their own and inside of text. Line endings count as
blanks between the parts of a tag. -/
namespace Tidymark.Markdown.Tag

def isSpace (c : Char) : Bool := Text.isSpaceOrTab c || c == '\n'

def isNameChar (c : Char) : Bool := c == '-' || isAlphanum c

def isAttributeStart (c : Char) : Bool := c == ':' || c == '_' || isAlpha c

def isAttributeChar (c : Char) : Bool :=
  c == '-' || c == '.' || c == ':' || c == '_' || isAlphanum c

/-- Characters that an attribute value without quotes cannot start with. -/
def isBareStart (c : Char) : Bool := !(c == '<' || c == '=' || c == '>' || c == '`')

/-- Characters that end an attribute value without quotes. -/
def isBareEnd (c : Char) : Bool :=
  isSpace c || c == '"' || c == '\'' || c == '/' || c == '<' || c == '=' || c == '>' || c == '`'

/-- What may follow the name of a tag or a value in quotes. -/
def isBoundary (c : Char) : Bool := isSpace c || c == '/' || c == '>'

/-- Behind a value without quotes in text: a slash belongs to the value. -/
def isBareChar (c : Char) : Bool :=
  !(isBoundary c || c == '"' || c == '\'' || c == '<' || c == '=' || c == '`')

mutual

/-- The attributes and the end of an opening tag. With `block` a value without quotes ends like an
attribute name, so that an equals sign may come again. -/
def attributes (block : Bool) : Nat → Recogniser
  | 0, _ => none
  | fuel + 1, cells =>
    match Scan.many isSpace cells with
    | [] => none
    | c :: rest =>
      if c.char == '/' then Scan.char '>' rest
      else if isAttributeStart c.char then
        attributeValue block fuel (Scan.many isAttributeChar rest)
      else Scan.char '>' (c :: rest)

/-- What follows an attribute name. -/
def attributeValue (block : Bool) : Nat → Recogniser
  | 0, _ => none
  | fuel + 1, cells =>
    match Scan.many isSpace cells with
    | [] => none
    | c :: rest =>
      if c.char != '=' then attributes block fuel (c :: rest)
      else match Scan.many isSpace rest with
        | [] => none
        | q :: value =>
          if q.char == '"' || q.char == '\'' then do
            let behind ← Scan.char q.char (Scan.many (· != q.char) value)
            let next ← Cells.headChar? behind
            if isBoundary next then attributes block fuel behind else none
          else if !isBareStart q.char then none
          else if block then
            attributeValue block fuel (Scan.many (!isBareEnd ·) (q :: value))
          else do
            let behind := Scan.many isBareChar value
            let next ← Cells.headChar? behind
            if isBoundary next then attributes block fuel behind else none

end

/-- A closing tag, behind its slash. -/
def closing (cells : List Cell) : Option (List Cell) := do
  let rest ← Scan.one isAlpha cells
  Scan.char '>' (Scan.many isSpace (Scan.many isNameChar rest))

/-- An opening tag inside of text, behind its angle bracket. -/
def opening (cells : List Cell) : Option (List Cell) := do
  let rest ← Scan.one isAlpha cells
  let behind := Scan.many isNameChar rest
  let next ← Cells.headChar? behind
  if isBoundary next then attributes false (2 * behind.length + 2) behind else none

end Tidymark.Markdown.Tag
