import Tidymark.Markdown.Line.Heading
import Tidymark.Markdown.Line.Fence
import Tidymark.Markdown.Line.Html
import Tidymark.Markdown.Line.Table

/-! # Leaf blocks, line by line

What a line means once the containers have taken their part of it. Some blocks stay open over
several lines; such a block is kept as a `Leaf` until a line shows that it has ended. -/
namespace Tidymark.Markdown

/-- A block that the next line may go on with. Literal blocks keep the ending of their last line
apart, since the ending belongs to the block only if the block goes on. -/
inductive Leaf where
  | none
  | fenced (fence : Line.Fence) (value : Text) (stop : Nat) (ending : Option Cell)
  | html (kind : Line.HtmlKind) (start : Nat) (value : Text) (stop : Nat) (ending : Option Cell)
  /-- `gap` holds the line endings since the last line with text; a block that is `alone` opened
  together with a container and has one line only. -/
  | indented (span : Span) (value gap : Text) (gapped alone : Bool)
  /-- A line that heads a table if a delimiter row follows, and is text otherwise. -/
  | tableHead (row : Row)
  /-- A table with its rows, the last one first. -/
  | table (span : Span) (rows : List TableRow)

namespace Leaf

/-- Whether markers of containers have no meaning inside of the block. -/
def isConcrete : Leaf → Bool
  | fenced .. | html .. => true
  | _ => false

def isTableHead : Leaf → Bool
  | tableHead _ => true
  | _ => false

/-- What an open block becomes when it ends with the line before, and whether that line was
blank. With `flush` the document or a container ends here: a block that waits for its closing mark
then takes the last line ending as well. -/
def finish (flush : Bool) : Leaf → Option Block × Bool
  | none => (Option.none, false)
  | fenced fence value stop ending =>
    let ending := if flush then ending else Option.none
    let value := value ++ (ending.map (·.raw)).getD []
    let stop := (ending.map (·.stop)).getD stop
    (some (.code ⟨fence.start, stop⟩ fence.info (Line.trimEndings value)), false)
  | html kind start value stop ending =>
    let ending := if flush && kind != .tags then ending else Option.none
    let value := value ++ (ending.map (·.raw)).getD []
    (some (.html ⟨start, (ending.map (·.stop)).getD stop⟩ value), false)
  | indented span value _ gapped _ =>
    (some (.code span Option.none (Line.dropLastEnding value)), gapped)
  | tableHead row => (some (.content [row]), false)
  | table span rows => (some (.table span rows.reverse), false)

end Leaf

/-- How a line relates to the containers: a lazy line lacks the markers of some open container,
and a piercing one opens a container. -/
structure Standing where
  lazy : Bool
  pierces : Bool

/-- What a line turns out to be. -/
structure Reading where
  /-- A block that ended with the line before. -/
  ended : Option Block := none
  /-- Whether a blank line came before, as far as the ended block knows. -/
  endedBlank : Bool := false
  /-- A block that this line completes, or a line of text. -/
  block : Option Block := none
  leaf : Leaf := .none
  /-- Whether a block that cannot end a paragraph is refused on the next line. -/
  interrupts : Bool := false
  /-- Whether the line is text, so that it may continue a paragraph lazily. -/
  isText : Bool := false
  isBlank : Bool := false

namespace Reading

def text (row : Row) : Reading :=
  { block := some (.content [row]), interrupts := true, isText := true }

def ofBlock (block : Block) : Reading := { block := some block }

def ofLeaf (leaf : Leaf) : Reading := { leaf }

end Reading

namespace Leaf

def heading? (row : Row) : Option Reading :=
  (Line.hashHeading? row.cells).map fun (depth, text) =>
    .ofBlock (.heading depth ⟨Cells.start row.stop row.cells, row.stop⟩ text)

def rule? (row : Row) : Option Reading :=
  if Line.isRule row.cells then
    some (.ofBlock (.rule ⟨Cells.start row.stop row.cells, row.stop⟩))
  else Option.none

def fenced? (row : Row) : Option Reading :=
  (Line.openFence? row).map fun fence => .ofLeaf (fenced fence [] row.stop row.ending)

def html? (interrupts : Bool) (standing : Standing) (row : Row) : Option Reading :=
  (Line.openHtml? (interrupts && !standing.lazy) row.cells).map fun (kind, ends) =>
    let start := Cells.start row.stop row.cells
    let value := Cells.raw row.cells
    if ends then .ofBlock (.html ⟨start, row.stop⟩ value)
    else .ofLeaf (html kind start value row.stop row.ending)

def indented? (interrupts : Bool) (standing : Standing) (row : Row) : Option Reading :=
  if interrupts then Option.none
  else (Cells.dropExactly 4 row.cells).map fun rest =>
    .ofLeaf (indented ⟨Cells.start row.stop row.cells, row.stop⟩ (Cells.raw rest)
      ((row.ending.map (·.raw)).getD []) false (standing.lazy || standing.pierces))

def underline? (follows : Bool) (standing : Standing) (row : Row) : Option Reading :=
  if follows && !standing.lazy && !standing.pierces then
    (Line.underlineDepth? row.cells).map fun depth =>
      { block := some (.underline depth row), isText := true }
  else Option.none

/-- The next row of an open table, the head of a new one, or text. -/
def tableOrText (open? : Option (Span × List TableRow)) (standing : Standing)
    (row : Row) : Reading :=
  match open? with
  | some (span, rows) =>
    if standing.lazy then .text row
    else .ofLeaf (table ⟨span.start, row.stop⟩ (Line.tableRow row :: rows))
  | Option.none =>
    if Line.mayHeadTable row.cells then
      { leaf := tableHead row, interrupts := true, isText := true }
    else .text row

/-- Reads a line that no open block takes. `follows` tells that the line before is text, `table?`
holds the table that the line before belongs to. -/
def start (interrupts follows : Bool) (table? : Option (Span × List TableRow))
    (standing : Standing) (row : Row) : Reading :=
  match Cells.headChar? row.cells with
  | Option.none => { isBlank := true }
  | some c =>
    if c == '#' then (heading? row).getD (.text row)
    else if c == '`' || c == '~' || c == '$' then (fenced? row).getD (.text row)
    else if c == '*' || c == '_' then (rule? row).getD (.text row)
    else if c == '<' then
      (html? interrupts standing row).getD (tableOrText table? standing row)
    else if c == 'e' || c == 'i' || c == '{' then .text row
    else if Cells.allBlank row.cells then { isBlank := true }
    else
      (((((((indented? interrupts standing row).or (fenced? row)).or
        (html? interrupts standing row)).or (heading? row)).or
        (underline? follows standing row)).or (rule? row))).getD
        (tableOrText table? standing row)

/-- Reads the next line, given the block that is open and what is known of the line before. -/
def read (leaf : Leaf) (interrupts follows : Bool) (standing : Standing) (row : Row) : Reading :=
  let endWith (interrupts follows : Bool) : Reading :=
    let (ended, endedBlank) := leaf.finish false
    { start interrupts follows Option.none standing row with ended, endedBlank }
  match leaf with
  | none => start interrupts follows Option.none standing row
  | fenced fence value _ ending =>
    let value := value ++ (ending.map (·.raw)).getD []
    if standing.lazy then endWith false false
    else if fence.isClosedBy row.cells then
      .ofBlock (.code ⟨fence.start, row.stop⟩ fence.info (Line.trimEndings value))
    else
      let line := Cells.raw (Cells.dropUpTo fence.indent row.cells)
      .ofLeaf (fenced fence (value ++ line) row.stop row.ending)
  | html kind start value _ ending =>
    if standing.lazy || (kind == .tags && Cells.allBlank row.cells) then endWith false false
    else
      let value := value ++ (ending.map (·.raw)).getD [] ++ Cells.raw row.cells
      if kind.endsIn (Cells.chars row.cells) then .ofBlock (.html ⟨start, row.stop⟩ value)
      else .ofLeaf (html kind start value row.stop row.ending)
  | indented span value gap _ alone =>
    if standing.lazy || alone then endWith false false
    else
      let ending := (row.ending.map (·.raw)).getD []
      match Cells.dropExactly 4 row.cells with
      | some rest =>
        .ofLeaf (indented ⟨span.start, row.stop⟩ (value ++ gap ++ Cells.raw rest) ending false
          false)
      | Option.none =>
        if Cells.allBlank row.cells then .ofLeaf (indented span value (gap ++ ending) true false)
        else endWith false false
  | tableHead head =>
    if !standing.lazy && Line.isDelimiterRow (Line.headColumns head.cells) row.cells then
      .ofLeaf (table ⟨Cells.start head.stop head.cells, row.stop⟩ [Line.tableRow head])
    else endWith true true
  | table span rows =>
    let reading := start interrupts follows (some (span, rows)) standing row
    match reading.leaf with
    | table .. => reading
    | _ => { reading with ended := some (.table span rows.reverse) }

end Leaf
end Tidymark.Markdown
