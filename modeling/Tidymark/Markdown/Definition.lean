import Tidymark.Span
import Tidymark.Markdown.Block
import Tidymark.Markdown.Reference

/-! # Link definitions

Text starts with any number of link definitions; what is left of it is a paragraph. -/
namespace Tidymark.Markdown

structure LinkDefinition where
  span : Span
  /-- The label, as it stands in the source. -/
  label : Text
  url : Text
  title : Option Text
  deriving Repr

/-- The cells of several rows, with the line endings between them. -/
def joinRows : List Row → List Cell
  | [] => []
  | [row] => row.cells
  | row :: rest => row.cells ++ row.ending.toList ++ joinRows rest

/-- The bytes of the source between two offsets. -/
def sourceBetween (source : Text) (start stop : Nat) : Text := (source.slice? start stop).getD []

namespace LinkDefinition

/-- Blanks up to the end of the line. -/
def endOfLine? (cells : List Cell) : Option (List Cell) :=
  let rest := Cells.dropBlanks cells
  if rest.head?.all Cell.isEnding then some rest else none

/-- The title behind a destination, on the same line or the next; an empty one is none. -/
def titled? (cells : List Cell) : Option (Option Text × List Cell) := do
  let behind := Scan.blanksAcrossEnding cells
  if behind.length = cells.length then none
  else
    let (title, rest) ← Scan.title? behind
    let rest ← endOfLine? rest
    some (if title.isEmpty then none else some (stringText title), rest)

/-- Reads a definition that is followed by the end of a line. -/
def read? (source : Text) (stop : Nat) (cells : List Cell) :
    Option (LinkDefinition × List Cell) := do
  let (label, rest) ← Scan.label? (Cells.dropBlanks cells)
  let behind ← Scan.char ':' rest
  let (url, behind) ←
    Scan.destination? behind.length (Scan.blanksAcrossEnding behind)
  let (title, behind) ←
    (titled? behind).or ((endOfLine? behind).map (none, ·))
  let labelStart := Cells.start stop label
  let labelStop := Cells.start stop rest - 1
  some
    ({ span := ⟨Cells.start stop cells, Cells.start stop behind⟩
       label := sourceBetween source labelStart labelStop
       url := stringText url
       title },
      behind)

/-- Takes the definitions off the front of text that ends at `stop`. -/
def readAll (source : Text) (stop : Nat) :
    Nat → List Cell → List LinkDefinition × List Cell
  | 0, cells => ([], cells)
  | fuel + 1, cells =>
    match read? source stop cells with
    | some (definition, behind) =>
      let (more, rest) := readAll source stop fuel (behind.drop 1)
      (definition :: more, rest)
    | none => ([], cells)

end LinkDefinition
end Tidymark.Markdown
