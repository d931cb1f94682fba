import Tidymark.Markdown.Line.Heading

/-! # Containers

Quotes, list items and footnote definitions hold other blocks. Each asks something of a line
before the line counts as its content: a marker or an indentation. -/
namespace Tidymark.Markdown

inductive Container where
  | quote
  /-- `size` is the indentation that the content of the item needs; `blankStart` tells that
  nothing but the marker has been seen. -/
  | item (marker : Char) (number : Option Nat) (size : Nat) (blankStart : Bool)
  | footnote (label : Text)
  deriving Repr

namespace Container

/-- The longest label of a footnote. -/
def maxLabel : Nat := 999

/-- What is left of a line for the content of an open container, and the container from then on,
or nothing if the line does not belong to it. -/
def resume? (container : Container) (cells : List Cell) : Option (Container × List Cell) :=
  match container with
  | quote => (Scan.char '>' (Cells.dropIndent cells)).map (quote, Cells.dropUpTo 1 ·)
  | item marker number size blankStart =>
    if Cells.allBlank cells then
      if blankStart then none
      else some (item marker number size false, Cells.dropUpTo size cells)
    else (Cells.dropExactly size cells).map (item marker number size false, ·)
  | footnote label =>
    if Cells.allBlank cells then some (footnote label, Cells.dropUpTo 4 cells)
    else (Cells.dropExactly 4 cells).map (footnote label, ·)

/-- The marker of a list item at the start of `cells`: the character that the items of a list
share, the number, and what follows. Only the number one starts a list within a paragraph. -/
def itemMarker? (interrupts : Bool) (cells : List Cell) :
    Option (Char × Option Nat × List Cell) := do
  let c ← Cells.headChar? cells
  if c == '+' || ((c == '*' || c == '-') && !Line.isRuleFrom cells) then
    some (c, none, cells.drop 1)
  else
    let behind := Scan.many Char.isDigit cells
    let digits := Cells.chars (Cells.before cells behind)
    let close ← Cells.headChar? behind
    let fits := if interrupts then digits == ['1'] else 1 ≤ digits.length && digits.length ≤ 9
    if fits && (close == '.' || close == ')') then
      some (close, some (digits.foldl (fun n d => 10 * n + (d.toNat - '0'.toNat)) 0),
        behind.drop 1)
    else none

/-- Where a row stops for the measure of a bare list marker: before its line feed. -/
def feedOffset (row : Row) : Nat :=
  match row.ending with
  | some e => e.stop - 1
  | none => row.stop

/-- Opens a list item. Its content is indented by one to four blanks behind the marker; with more,
by one, so that the content is indented code. An item without text on its first line does not end
a paragraph. -/
def openItem? (interrupts : Bool) (row : Row) : Option (Container × List Cell) := do
  let start := Place.ofCells row.stop row.cells
  let (marker, number, behind) ← itemMarker? interrupts (Cells.dropIndent row.cells)
  if Cells.allBlank behind then
    if interrupts then none
    else
      let size := start.distance (Place.ofCells (feedOffset row) behind) + 1
      some (item marker number size true, behind)
  else
    let deep := Cells.dropUpTo 4 behind
    let rest :=
      if deep.head?.any Cell.isBlank then behind.drop 1 else deep
    if Cells.headChar? behind |>.any Text.isSpaceOrTab then
      some (item marker number (start.distance (Place.ofCells row.stop rest)) false, rest)
    else none

/-- The label of a footnote, behind `[^`, and what follows its bracket. -/
def footnoteLabel? (size : Nat) (label : List Cell) :
    List Cell → Option (List Cell × List Cell)
  | [] => none
  | c :: cells =>
    if maxLabel < size || c.isBlank || c.char == '[' then none
    else if c.char == ']' then if size = 0 then none else some (label.reverse, cells)
    else if c.char == '\\' then
      match cells with
      | d :: rest =>
        if d.char == '[' || d.char == '\\' || d.char == ']' then
          footnoteLabel? (size + c.raw.size + d.raw.size) (d :: c :: label) rest
        else footnoteLabel? (size + c.raw.size) (c :: label) (d :: rest)
      | [] => none
    else footnoteLabel? (size + c.raw.size) (c :: label) cells

def openFootnote? (cells : List Cell) : Option (Container × List Cell) := do
  let rest ← Scan.chars ['[', '^'] (Cells.dropIndent cells)
  let (label, rest) ← footnoteLabel? 0 [] rest
  let rest ← Scan.char ':' rest
  some (footnote (Cells.raw label), Cells.dropBlanks rest)

/-- The container that a row opens, and what is left of the row for its content. -/
def open? (interrupts : Bool) (row : Row) : Option (Container × List Cell) :=
  (quote.resume? row.cells).orElse fun _ =>
    (openItem? interrupts row).orElse fun _ => openFootnote? row.cells

end Container
end Tidymark.Markdown
