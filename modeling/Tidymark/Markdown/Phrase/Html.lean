import Tidymark.Markdown.Tag

/-! # HTML in text

Comments, declarations, instructions, character data and tags between other text; all of them may
go over several lines. -/
namespace Tidymark.Markdown.Tag

/-- What follows the first occurrence of `mark`. -/
def behind (mark : List Char) : Recogniser
  | [] => none
  | c :: cells =>
    if mark.isPrefixOf (Cells.chars (c :: cells)) then some ((c :: cells).drop mark.length)
    else behind mark cells

/-- What follows the HTML that starts with the first of `cells`. -/
def inline? (cells : List Cell) : Option (List Cell) := do
  let rest ← Scan.char '<' cells
  match Cells.chars (rest.take 8) with
  | '!' :: '-' :: '-' :: _ =>
    let inside := rest.drop 3
    match Cells.chars (inside.take 2) with
    | '>' :: _ => some (inside.drop 1)
    | ['-', '>'] => some (inside.drop 2)
    | _ => behind ['-', '-', '>'] inside
  | ['!', '[', 'C', 'D', 'A', 'T', 'A', '['] => behind [']', ']', '>'] (rest.drop 8)
  | '!' :: c :: _ => if isAlpha c then behind ['>'] (rest.drop 2) else none
  | '?' :: _ => behind ['?', '>'] (rest.drop 1)
  | '/' :: _ => closing (rest.drop 1)
  | _ => opening rest

/-- The text of HTML: blanks at the start of its further lines are left out. -/
def inlineText : List Cell → Text
  | [] => []
  | c :: cells =>
    if c.isEnding then c.raw ++ skipBlanks cells else c.raw ++ inlineText cells
where
  skipBlanks : List Cell → Text
    | [] => []
    | c :: cells =>
      if c.isBlank then skipBlanks cells
      else if c.isEnding then c.raw ++ skipBlanks cells
      else c.raw ++ inlineText cells

end Tidymark.Markdown.Tag
