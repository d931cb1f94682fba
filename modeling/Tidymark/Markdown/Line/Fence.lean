import Tidymark.Markdown.Block
import Tidymark.Markdown.Scan

/-! # Code fences

A fence opens with at least three grave accents or tildes and closes with at least as many. The
indentation of the opening fence is taken off the lines between. -/
namespace Tidymark.Markdown.Line

structure Fence where
  marker : Char
  size : Nat
  indent : Nat
  /-- The first word behind the marker. -/
  info : Option (List Cell)
  /-- Where the marker starts. -/
  start : Nat
  deriving Repr

def openFence? (row : Row) : Option Fence := do
  let rest := Cells.dropIndent row.cells
  let marker ← Cells.headChar? rest
  let size := Scan.count marker rest
  let behind := Cells.dropBlanks (rest.drop size)
  let allowed := marker == '~' || (marker == '`' && behind.all (·.char != '`'))
  if allowed && 3 ≤ size then
    let word := behind.takeWhile (!·.isBlank)
    some
      { marker, size
        indent := (Place.ofCells row.stop row.cells).distance (Place.ofCells row.stop rest)
        info := if word.isEmpty then none else some word
        start := Cells.start row.stop rest }
  else none

/-- Whether a line closes the fence. -/
def Fence.isClosedBy (fence : Fence) (cells : List Cell) : Bool :=
  let rest := Cells.dropIndent cells
  let size := Scan.count fence.marker rest
  fence.size ≤ size && Cells.allBlank (rest.drop size)

def dropFirstEnding : Text → Text
  | '\r' :: '\n' :: t => t
  | c :: t => if c == '\n' || c == '\r' then t else c :: t
  | [] => []

def dropLastEnding (t : Text) : Text :=
  match t.reverse with
  | '\n' :: '\r' :: s => s.reverse
  | c :: s => if c == '\n' || c == '\r' then s.reverse else t
  | [] => []

/-- A text without one line ending at its start and one at its end. -/
def trimEndings (t : Text) : Text := dropLastEnding (dropFirstEnding t)

end Tidymark.Markdown.Line
