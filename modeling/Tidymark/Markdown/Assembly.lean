import Tidymark.Markdown.Outline
import Tidymark.Markdown.Phrase.Parts

/-! # From blocks to parts

Text is split into definitions and paragraphs, underlines turn paragraphs into headings, and items
that follow each other with one marker become a list. -/
namespace Tidymark.Markdown

/-- A paragraph that a following underline would turn into a heading. -/
structure Prose where
  span : Span
  cells : List Cell
  /-- The line ending behind it, if it is only an underline that has nothing to underline. -/
  underlineEnding : Option Cell

/-- A list that further items may join. -/
structure ListRun where
  marker : Char
  number : Option Nat
  span : Span
  /-- The items, the last one first. -/
  items : List Part
  spread : Bool
  /-- Whether a blank line that spreads the list follows the last item. -/
  gap : Bool
  /-- Whether the last item ends in a bare marker and nothing has followed it. -/
  afterBare : Bool

/-- The parts of a container so far, the last one first, and what may still grow. -/
structure Assembly where
  /-- Whether the container is a list item that so far holds only definitions. -/
  startsItem : Bool
  parts : List Part := []
  prose : Option Prose := none
  list : Option ListRun := none

/-- The text behind the mark of a task at the start of a list item. -/
def taskText? (cells : List Cell) : Option (List Cell) := do
  let inside ← Scan.char '[' cells
  let rest ← Scan.one (fun c => Tag.isSpace c || c == 'x' || c == 'X') inside
  let behind ← Scan.char ']' rest
  let next ← behind.head?
  if next.isEnding || (next.isBlank && !Cells.allBlank behind) then some behind else none

namespace Assembly

/-- The character that separates a task from its mark, if the text starts with one. -/
def dropSeparator : Text → Text
  | '\r' :: '\n' :: t => t
  | c :: t => if Tag.isSpace c || c == '\r' then t else c :: t
  | [] => []

/-- A paragraph that starts with the mark of a task: the mark and the character behind it belong
to the item. -/
def taskParagraph (span : Span) (children : List Part) : Part :=
  match children with
  | .mk (.text value) (some textSpan) _ :: rest =>
    let kept := dropSeparator value
    let start := textSpan.start + (Text.size value - Text.size kept)
    let rest := if kept.isEmpty then rest else .leaf (.text kept) ⟨start, textSpan.stop⟩ :: rest
    .branch .paragraph ⟨start, span.stop⟩ rest
  | _ => .branch .paragraph span children

def text (s : Surroundings) (cells : List Cell) : List Part :=
  phrases (s.around cells) true cells

def paragraph (s : Surroundings) (a : Assembly) (prose : Prose) : Part :=
  match if a.startsItem then taskText? prose.cells else none with
  | some cells =>
    let children := phrases (s.around cells) false cells
    if a.parts.isEmpty then taskParagraph prose.span children
    else .branch .paragraph prose.span children
  | none => .branch .paragraph prose.span (text s prose.cells)

def add (part : Part) (a : Assembly) : Assembly :=
  { a with
    parts := part :: a.parts
    startsItem := a.startsItem && part.kind.nodeKind == .definition }

def endProse (s : Surroundings) (a : Assembly) : Assembly :=
  match a.prose with
  | some prose => { a with prose := none }.add (a.paragraph s prose)
  | none => a

def endList (a : Assembly) : Assembly :=
  match a.list with
  | some run =>
    { a with list := none }.add
      (.branch (.list run.number.isSome run.number run.spread) run.span run.items.reverse)
  | none => a

/-- Places what may no longer grow. -/
def settle (s : Surroundings) (a : Assembly) : Assembly := (a.endProse s).endList

def blank (s : Surroundings) (a : Assembly) : Assembly :=
  let a := a.endProse s
  { a with
    list := a.list.map fun run =>
      if run.afterBare then { run with afterBare := false } else { run with gap := true } }

/-- Adds lines of text. Behind an underline on its own they go on with its paragraph, if nothing
but a line ending lies between. -/
def content (s : Surroundings) (rows : List Row) (a : Assembly) : Assembly :=
  let cells := joinRows rows
  let stop := (cells.getLast?.map (·.stop)).getD 0
  let (definitions, rest) := LinkDefinition.readAll s.source stop (cells.length + 1) cells
  let prose? : Option Prose :=
    if rest.isEmpty then none else some ⟨⟨Cells.start stop rest, stop⟩, rest, none⟩
  let joined? : Option Prose := do
    let earlier ← a.prose
    let ending ← earlier.underlineEnding
    let first ← cells.head?
    if definitions.isEmpty && first.step = 0 && ending.stop = first.start then
      some ⟨⟨earlier.span.start, stop⟩, earlier.cells ++ ending :: rest, none⟩
    else none
  match joined? with
  | some prose => { a with prose := some prose }
  | none =>
    let a := definitions.foldl
      (fun a d => a.add (.leaf (.definition d.url d.title) d.span)) (a.settle s)
    { a with prose := prose? }

/-- Adds an underline. Without text before it, it is text itself. -/
def underline (s : Surroundings) (depth : Nat) (row : Row) (a : Assembly) : Assembly :=
  let start := Cells.start row.stop row.cells
  match a.prose with
  | some prose =>
    { a with prose := none }.add
      (.branch (.heading depth) ⟨prose.span.start, row.stop⟩ (text s prose.cells))
  | none =>
    { a.endList with prose := some ⟨⟨start, row.stop⟩, Cells.trim row.cells, row.ending⟩ }

def item (span : Span) (marker : Char) (number : Option Nat) (bare : Bool)
    (children : List Part) (s : Surroundings) (a : Assembly) : Assembly :=
  let part := Part.branch .listItem span children
  let a := a.endProse s
  let fresh : ListRun := ⟨marker, number, span, [part], false, false, bare⟩
  match a.list with
  | some run =>
    if run.marker == marker then
      { a with
        list := some
          { run with
            span := ⟨run.span.start, span.stop⟩
            items := part :: run.items
            spread := run.spread || run.gap
            gap := false
            afterBare := bare } }
    else { a.endList with list := some fresh }
  | none => { a with list := some fresh }

end Assembly

def tablePart (s : Surroundings) (span : Span) (rows : List TableRow) : Part :=
  let s := { s with inTable := true }
  .branch .table span <| rows.map fun row =>
    .branch .tableRow row.span <| row.cells.map fun cell =>
      .branch .tableCell cell.span (Assembly.text s cell.text)

/-- Whether a list item ends in a bare marker: its own, or that of a quote. -/
def isBareItem (children : List Block) : Bool :=
  match children.getLast? with
  | none => true
  | some (.quote _ bare _) => bare
  | some _ => false

mutual

def Block.assemble (s : Surroundings) (a : Assembly) : Block → Assembly
  | .blank => a.blank s
  | .content rows => a.content s rows
  | .underline depth row => a.underline s depth row
  | .heading depth span text =>
    (a.settle s).add (.branch (.heading depth) span (Assembly.text s text))
  | .rule span => (a.settle s).add (.leaf .thematicBreak span)
  | .code span info value =>
    (a.settle s).add (.leaf (.code (info.map stringText) value) span)
  | .html span value => (a.settle s).add (.leaf (.html value) span)
  | .table span rows => (a.settle s).add (tablePart s span rows)
  | .quote span _ children =>
    let inside := assembleAll s ⟨false, [], none, none⟩ children
    (a.settle s).add (.branch .blockquote span (inside.settle s).parts.reverse)
  | .item span marker number children =>
    let inside := assembleAll s ⟨true, [], none, none⟩ children
    a.item span marker number (isBareItem children) (inside.settle s).parts.reverse s
  | .footnote span _ children =>
    let inside := assembleAll s ⟨false, [], none, none⟩ children
    (a.settle s).add (.branch .footnoteDefinition span (inside.settle s).parts.reverse)

def assembleAll (s : Surroundings) (a : Assembly) : List Block → Assembly
  | [] => a
  | block :: rest => assembleAll s (block.assemble s a) rest

end

mutual

/-- The labels of the definitions and of the footnotes in a block, in comparable form. -/
def Block.labels (source : Text) : Block → List Text × List Text
  | .content rows =>
    let cells := joinRows rows
    let stop := (cells.getLast?.map (·.stop)).getD 0
    ((LinkDefinition.readAll source stop (cells.length + 1) cells).1.map
      (normaliseLabel ·.label), [])
  | .quote _ _ children | .item _ _ _ children => labelsAll source children
  | .footnote _ label children =>
    let (definitions, footnotes) := labelsAll source children
    (definitions, normaliseLabel label :: footnotes)
  | _ => ([], [])

def labelsAll (source : Text) : List Block → List Text × List Text
  | [] => ([], [])
  | block :: rest =>
    let (definitions, footnotes) := block.labels source
    let (more, others) := labelsAll source rest
    (definitions ++ more, footnotes ++ others)

end

end Tidymark.Markdown
