import Tidymark.Markdown.Container
import Tidymark.Markdown.Leaf

/-! # The block structure of a document

The rows of a document are read one after another. What is open between two rows, the containers
and at most one leaf block, is an `Outline`. -/
namespace Tidymark.Markdown

/-- An open container with its blocks so far, the last one first. -/
structure Frame where
  container : Container
  start : Nat
  /-- Whether nothing follows the marker on the last line. -/
  bare : Bool
  blocks : List Block

structure Outline where
  /-- The blocks of the document, the last one first. -/
  root : List Block := []
  /-- The open containers, the innermost first. -/
  frames : List Frame := []
  leaf : Leaf := .none
  interrupts : Bool := false
  /-- Whether the line before is text. -/
  isText : Bool := false
  /-- Whether the line before is blank. -/
  isBlank : Bool := false
  /-- Whether the line before is lazy. -/
  lazy : Bool := false
  /-- Where the line before ends. -/
  stop : Nat := 0

/-- Puts a block behind the others; lines of text that follow each other are kept together. -/
def Block.push (block : Block) (blocks : List Block) : List Block :=
  match block, blocks with
  | .content rows, .content earlier :: rest => .content (earlier ++ rows) :: rest
  | _, _ => block :: blocks

def Block.stop? : Block → Option Nat
  | code span .. | html span .. => some span.stop
  | _ => none

def Frame.toBlock (stop : Nat) (frame : Frame) : Block :=
  let span : Span := ⟨frame.start, stop⟩
  match frame.container with
  | .quote => .quote span frame.bare frame.blocks.reverse
  | .item marker number _ _ => .item span marker number frame.blocks.reverse
  | .footnote label => .footnote span label frame.blocks.reverse

namespace Outline

/-- Adds a block to the innermost open container. -/
def push (block : Block) (o : Outline) : Outline :=
  match o.frames with
  | [] => { o with root := block.push o.root }
  | frame :: rest => { o with frames := { frame with blocks := block.push frame.blocks } :: rest }

def push? (block? : Option Block) (o : Outline) : Outline :=
  match block? with
  | some block => o.push block
  | none => o

def pushBlankIf (blank : Bool) (o : Outline) : Outline := if blank then o.push .blank else o

/-- Closes the `n` innermost containers. -/
def close (stop : Nat) : Nat → Outline → Outline
  | 0, o => o
  | n + 1, o =>
    match o.frames with
    | [] => o
    | frame :: rest => close stop n ({ o with frames := rest }.push (frame.toBlock stop))

/-- Ends the open leaf and the `n` innermost containers with the line before. -/
def flush (n : Nat) (o : Outline) : Outline :=
  let (block?, blank) := o.leaf.finish (!o.lazy)
  let stop := max o.stop ((block?.bind Block.stop?).getD 0)
  let closed := close stop n ({ o with leaf := .none }.push? block?)
  { closed with interrupts := false, isBlank := o.isBlank || blank }

/-- Resumes the open containers, the outermost first: the frames that a row belongs to, the
innermost first, the frames that it does not belong to, and what is left of it. -/
def resume (cells : List Cell) :
    List Frame → List Frame → List Frame × List Frame × List Cell
  | resumed, [] => (resumed, [], cells)
  | resumed, frame :: rest =>
    match frame.container.resume? cells with
    | some (container, left) =>
      resume left ({ frame with container, bare := left.isEmpty } :: resumed) rest
    | none => (resumed, frame :: rest, cells)

/-- Opens as many containers as the row has markers for. -/
def openAll : Nat → Bool → Row → List Frame → List Frame × Row
  | 0, _, row, frames => (frames, row)
  | fuel + 1, interrupts, row, frames =>
    match Container.open? interrupts row with
    | some (container, left) =>
      openAll fuel interrupts { row with cells := left }
        ({ container, start := Cells.start row.stop row.cells, bare := left.isEmpty,
           blocks := [] } :: frames)
    | none => (frames, row)

/-- Takes over what a line turned out to be; with `n` containers that the line does not belong to
and does not continue lazily. -/
def settle (n : Nat) (lazy : Bool) (stop : Nat) (reading : Reading) (o : Outline) : Outline :=
  let closed := close o.stop n (o.push? reading.ended)
  let settled := (closed.pushBlankIf (o.isBlank || reading.endedBlank)).push? reading.block
  { settled with
    leaf := reading.leaf
    interrupts := reading.interrupts && n = 0
    isText := reading.isText
    isBlank := reading.isBlank
    lazy, stop }

/-- Reads one row. -/
def step (o : Outline) (row : Row) : Outline :=
  let (resumed, missed, cells) := resume row.cells [] o.frames.reverse
  let left : Row := { row with cells }
  let interrupts := missed.isEmpty && o.interrupts
  let (opened, inner) :=
    if missed.isEmpty && o.leaf.isConcrete then ([], left)
    else openAll (cells.length + 1) interrupts left []
  if opened.isEmpty then
    let standing : Standing := ⟨!missed.isEmpty, false⟩
    let reading := o.leaf.read o.interrupts o.isText standing left
    if standing.lazy && o.isText && reading.isText then
      let kept := missed.map fun frame => { frame with bare := false }
      { o with frames := kept.reverse ++ resumed }.settle 0 true row.stop reading
    else
      { o with frames := missed.reverse ++ resumed }.settle missed.length standing.lazy row.stop
        reading
  else
    let ended := { o with frames := missed.reverse ++ resumed }.flush missed.length
    let interrupts := missed.isEmpty && (o.interrupts || o.leaf.isTableHead)
    let ended := ended.pushBlankIf ended.isBlank
    let opened := { ended with frames := opened ++ ended.frames, isBlank := false }
    opened.settle 0 false row.stop (Leaf.none.read interrupts false ⟨false, true⟩ inner)

/-- Reads all rows and closes what is open at the end. -/
def ofRows (rows : List Row) : List Block :=
  let last := rows.foldl step {}
  (last.flush last.frames.length).root.reverse

end Outline
end Tidymark.Markdown
