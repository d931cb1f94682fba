import Tidymark.Markdown.Block
import Tidymark.Markdown.Scan

/-! # Lines of one marker

Headings marked by hashes, underlines of headings, and thematic breaks: lines that are decided on
their own. Each may be indented by up to three columns. -/
namespace Tidymark.Markdown.Line

/-- The words in the text of a heading, each as the cells from its start and the cells behind it.
Runs of hashes at the start of a word are passed over. -/
def headingWords : Nat → List Cell → List (List Cell × List Cell)
  | 0, _ => []
  | fuel + 1, cells =>
    match Cells.dropBlanks cells with
    | [] => []
    | c :: rest =>
      if c.char == '#' then headingWords fuel (rest.dropWhile (·.char == '#'))
      else
        let behind := rest.dropWhile (!·.isBlank)
        (c :: rest, behind) :: headingWords fuel behind

/-- The text of a heading, from its first word to the end of its last one. -/
def headingText (cells : List Cell) : List Cell :=
  match headingWords cells.length cells with
  | [] => []
  | (first, behind) :: more => Cells.before first ((more.getLast?.map (·.2)).getD behind)

/-- The depth and the text of a heading marked by one to six hashes. -/
def hashHeading? (cells : List Cell) : Option (Nat × List Cell) :=
  let rest := Cells.dropIndent cells
  let depth := Scan.count '#' rest
  let behind := rest.drop depth
  if 1 ≤ depth && depth ≤ 6 && behind.head?.all Cell.isBlank then
    some (depth, headingText behind)
  else none

/-- The depth of the heading that a line underlines. -/
def underlineDepth? (cells : List Cell) : Option Nat := do
  let rest := Cells.dropIndent cells
  let marker ← Cells.headChar? rest
  Scan.onlyBlanks (Scan.many (· == marker) rest)
  match marker with
  | '=' => some 1
  | '-' => some 2
  | _ => none

/-- Whether cells that start with a marker hold at least three of it and nothing else. -/
def isRuleFrom (cells : List Cell) : Bool :=
  match Cells.headChar? cells with
  | none => false
  | some marker =>
    (marker == '*' || marker == '-' || marker == '_') &&
    cells.all (fun c => c.isBlank || c.char == marker) &&
    3 ≤ cells.countP (·.char == marker)

def isRule (cells : List Cell) : Bool := isRuleFrom (Cells.dropIndent cells)

end Tidymark.Markdown.Line
