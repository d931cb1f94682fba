import Tidymark.Text

/-! # Rows of cells

Block structure is decided by columns, so a document is first laid out: each line becomes a row of
cells, and a tab becomes as many cells as the columns it fills. A cell remembers the bytes it
stands for, so that whatever is found in a row can be placed in the source again. -/
namespace Tidymark.Markdown

structure Cell where
  char : Char
  /-- What the cell adds to a literal value: nothing for the later columns of a tab. -/
  raw : Text
  start : Nat
  stop : Nat
  /-- How many columns of the same tab come before. -/
  step : Nat
  /-- The characters of the source on both sides. -/
  previous : Option Char := none
  next : Option Char := none
  deriving DecidableEq, Repr

def Cell.isBlank (c : Cell) : Bool := Text.isSpaceOrTab c.char

def Cell.isEnding (c : Cell) : Bool := c.char == '\n'

/-- Whether a cell comes before another one of its document. -/
def Cell.precedes (c d : Cell) : Bool :=
  c.start < d.start || (c.start == d.start && c.step < d.step)

/-- One line: its cells, the cell of its line ending, and the offset where its cells end. -/
structure Row where
  cells : List Cell
  ending : Option Cell
  stop : Nat
  deriving Repr

/-- The number of columns that a tab at `column` fills; tab stops are four columns apart. -/
def tabWidth (column : Nat) : Nat := if column % 4 = 0 then 1 else 5 - column % 4

def tabCells (offset width : Nat) (previous next : Option Char) : List Cell :=
  (List.range width).map fun i =>
    { char := if i = 0 then '\t' else ' '
      raw := if i = 0 then ['\t'] else []
      start := offset
      stop := if i + 1 = width then offset + 1 else offset
      step := i
      previous, next }

def endingCell (offset : Nat) (raw : Text) : Cell :=
  { char := '\n', raw, start := offset, stop := offset + raw.size, step := 0 }

/-- Lays out a text that starts at `offset` and `column` behind the character `previous` and the
cells of its first line, which are given in reverse. A line ends at a line feed, a carriage return
or both together. -/
def layOut (offset column : Nat) (previous : Option Char) (cells : List Cell) : Text → List Row
  | [] => if cells.isEmpty then [] else [⟨cells.reverse, none, offset⟩]
  | '\r' :: '\n' :: t =>
    ⟨cells.reverse, some (endingCell offset ['\r', '\n']), offset⟩ ::
      layOut (offset + 2) 1 (some '\n') [] t
  | c :: t =>
    if c == '\n' || c == '\r' then
      ⟨cells.reverse, some (endingCell offset [c]), offset⟩ ::
        layOut (offset + 1) 1 (some c) [] t
    else if c == '\t' then
      let width := tabWidth column
      layOut (offset + 1) (column + width) (some c)
        ((tabCells offset width previous t.head?).reverse ++ cells) t
    else
      layOut (offset + c.utf8Size) (column + c.utf8Size) (some c)
        (⟨c, [c], offset, offset + c.utf8Size, 0, previous, t.head?⟩ :: cells) t

/-- The rows of a document; a byte order mark at its start belongs to no row. -/
def rowsOf : Text → List Row
  | '\uFEFF' :: t => layOut 3 1 (some '\uFEFF') [] t
  | t => layOut 0 1 none [] t

namespace Cells

/-- The literal text of some cells. -/
def raw (cells : List Cell) : Text := cells.flatMap (·.raw)

def chars (cells : List Cell) : List Char := cells.map (·.char)

/-- Where the cells start, if they end at `stop`. -/
def start (stop : Nat) : List Cell → Nat
  | [] => stop
  | c :: _ => c.start

/-- The first cells, up to where `rest` begins. -/
def before (cells rest : List Cell) : List Cell :=
  match rest with
  | [] => cells
  | next :: _ => cells.takeWhile (·.precedes next)

def allBlank (cells : List Cell) : Bool := cells.all Cell.isBlank

def dropBlanks (cells : List Cell) : List Cell := cells.dropWhile Cell.isBlank

/-- The cells without blanks at either end. -/
def trim (cells : List Cell) : List Cell :=
  ((dropBlanks cells).reverse.dropWhile Cell.isBlank).reverse

/-- Drops as many blanks as there are, but at most `n`. -/
def dropUpTo : Nat → List Cell → List Cell
  | 0, cells => cells
  | _ + 1, [] => []
  | n + 1, c :: cells => if c.isBlank then dropUpTo n cells else c :: cells

/-- Drops exactly `n` blanks. -/
def dropExactly : Nat → List Cell → Option (List Cell)
  | 0, cells => some cells
  | _ + 1, [] => none
  | n + 1, c :: cells => if c.isBlank then dropExactly n cells else none

/-- The cells behind the indentation that a block other than indented code may have. -/
def dropIndent (cells : List Cell) : List Cell := dropUpTo 3 cells

def headChar? (cells : List Cell) : Option Char := cells.head?.map (·.char)

end Cells

/-- A place between two cells: an offset and, inside a tab, the columns of the tab before it. -/
structure Place where
  offset : Nat
  step : Nat

/-- The place where the cells start, if they end at `stop`. -/
def Place.ofCells (stop : Nat) : List Cell → Place
  | [] => ⟨stop, 0⟩
  | c :: _ => ⟨c.start, c.step⟩

/-- The width of what lies between two places: a whole tab counts one, and of a tab that is cut
only the columns on this side of the cut count. -/
def Place.distance (a b : Place) : Nat :=
  let first := if a.step = 0 then a.offset else a.offset + 1
  let last := if b.step = 0 then b.offset else b.offset + 1
  (last - first) + (if a.step = 0 then 0 else 4 - a.step) + (b.step - 1)

end Tidymark.Markdown
