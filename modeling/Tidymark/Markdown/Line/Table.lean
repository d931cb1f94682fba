import Tidymark.Markdown.Block
import Tidymark.Markdown.Scan

/-! # Table rows

A row is cut into cells at its pipes; a pipe behind a backslash does not cut. The first pipe of a
row that starts with one, and the last pipe of a row that ends with one, open no cell. -/
namespace Tidymark.Markdown.Line

/-- What stands before the first pipe, and each pipe with what stands behind it. -/
def splitAtPipes : List Cell → List Cell × List (Cell × List Cell)
  | [] => ([], [])
  | [c] => if c.char == '|' then ([], [(c, [])]) else ([c], [])
  | c :: d :: rest =>
    if c.char == '|' then
      let (first, more) := splitAtPipes (d :: rest)
      ([], (c, first) :: more)
    else if c.char == '\\' && (d.char == '\\' || d.char == '|') then
      let (first, more) := splitAtPipes rest
      (c :: d :: first, more)
    else
      let (first, more) := splitAtPipes (d :: rest)
      (c :: first, more)

/-- The cells that start where `starts` tell, the last of which stops at `stop`. -/
def tableCells (stop : Nat) : List (Nat × List Cell) → List TableCell
  | [] => []
  | [(start, text)] => [⟨⟨start, stop⟩, Cells.trim text⟩]
  | (start, text) :: (next, more) :: rest =>
    ⟨⟨start, next⟩, Cells.trim text⟩ :: tableCells stop ((next, more) :: rest)

def tableRow (row : Row) : TableRow :=
  let start := Cells.start row.stop row.cells
  let (first, pieces) := splitAtPipes row.cells
  let pieces := pieces.map fun (pipe, text) => (pipe.start, text)
  let segments :=
    match pieces with
    | (_, text) :: more =>
      if Cells.allBlank first then (start, text) :: more else (start, first) :: pieces
    | [] => [(start, first)]
  let segments :=
    match segments.reverse with
    | last :: before :: more =>
      if Cells.allBlank last.2 then (before :: more).reverse else segments
    | _ => segments
  ⟨⟨start, row.stop⟩, tableCells row.stop segments⟩

/-- Whether a line may head a table: it holds more than a lone pipe. -/
def mayHeadTable (cells : List Cell) : Bool :=
  match Cells.dropIndent cells with
  | [] => false
  | c :: rest => !c.isBlank && (c.char != '|' || !Cells.allBlank rest)

/-- The columns of a delimiter row behind its first pipe: the number of columns and whether a
colon or a pipe was there. -/
def delimiters : Nat → Nat → Bool → List Cell → Option (Nat × Bool)
  | 0, _, _, _ => none
  | fuel + 1, columns, marked, cells =>
    match Cells.dropBlanks cells with
    | [] => some (columns, marked)
    | c :: rest =>
      if c.char != ':' && c.char != '-' then none
      else
        let dashes := if c.char == ':' then rest else c :: rest
        if Cells.headChar? dashes != some '-' then none
        else
          let behind := Scan.many (· == '-') dashes
          let (behind, right) :=
            match behind with
            | d :: more => if d.char == ':' then (more, true) else (d :: more, false)
            | [] => ([], false)
          let marked := marked || c.char == ':' || right
          match Cells.dropBlanks behind with
          | [] => some (columns + 1, marked)
          | d :: more => if d.char == '|' then delimiters fuel (columns + 1) true more else none

/-- Whether a line is the delimiter row of a table with so many columns. -/
def isDelimiterRow (columns : Nat) (cells : List Cell) : Bool :=
  let rest := Cells.dropIndent cells
  let found :=
    match rest with
    | [] => none
    | c :: more =>
      if c.char == '|' then delimiters (rest.length + 1) 0 true more
      else if c.char == '-' || c.char == ':' then delimiters (rest.length + 1) 0 false rest
      else none
  found == some (columns, true)

/-- The number of columns that the head of a table names. -/
def headColumns (cells : List Cell) : Nat := (tableRow ⟨cells, none, 0⟩).cells.length

end Tidymark.Markdown.Line
