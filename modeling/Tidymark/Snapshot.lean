import Tidymark.Line
import Tidymark.Parser
import Tidymark.Tree.Walk

/-! # Snapshots

What rules see of a document: its text, its lines, its tree, and what a walk over the tree finds
there. A document that changes gets a new snapshot. -/
namespace Tidymark

/-- A heading of the tree. -/
structure Heading where
  span : Span
  depth : Nat
  setext : Bool
  /-- The line, counted from zero, that the heading starts on. -/
  line : Nat
  /-- Whether the heading is a child of the root. -/
  topLevel : Bool
  deriving DecidableEq, Repr

/-- What a walk finds. -/
structure Outlook where
  /-- How many nodes the walk is inside of. -/
  depth : Nat
  /-- Spans of code and front matter. -/
  verbatim : List Span
  headings : List (Span × Nat × Bool × Bool)
  frontMatter : Option Span

namespace Outlook

def empty : Outlook := ⟨0, [], [], none⟩

/-- Notes a node of a kind, and answers whether to go below it: code and front matter hide what is
inside of them. -/
def note (hook : Hook) (node : Node) (o : Outlook) : Bool × Outlook :=
  match hook with
  | .heading =>
    match node.data with
    | .heading depth setext =>
      (true, { o with headings := o.headings ++ [(node.span, depth, setext, o.depth == 2)] })
    | _ => (true, o)
  | .code => (false, { o with verbatim := o.verbatim ++ [node.span] })
  | .frontMatter =>
    (false, { o with
      verbatim := o.verbatim ++ [node.span]
      frontMatter := o.frontMatter.or (some node.span) })
  | _ => (true, o)

def collector : Visitor (StateM Outlook) where
  enter _ := modify fun o => { o with depth := o.depth + 1 }
  visit hook node := modifyGet (note hook node)
  exit _ := modify fun o => { o with depth := o.depth - 1 }

def ofTree (root : Node) : Outlook := ((collector.walk root).run empty).2

end Outlook

structure Snapshot where
  path : String
  source : Text
  root : Node
  lines : List Line
  headings : List Heading
  /-- Where the front matter is. -/
  frontMatter : Option Span

namespace Snapshot

/-- Marks the lines that share a byte with one of `spans`. -/
def markVerbatim (spans : List Span) (lines : List Line) : List Line :=
  lines.map fun l => { l with verbatim := spans.any fun s => l.start < s.stop && s.start < l.stop }

def ofTree (path : String) (source : Text) (root : Node) : Snapshot :=
  let found := Outlook.ofTree root
  let lines := markVerbatim found.verbatim (Line.ofText source)
  { path, source, root, lines
    headings := found.headings.map fun (span, depth, setext, topLevel) =>
      ⟨span, depth, setext, Line.indexAt lines span.start, topLevel⟩
    frontMatter := found.frontMatter }

variable {m : Type → Type} [Monad m]

def ofSource (parser : Parser m) (path : String) (source : Text) :
    m (Except ParseError Snapshot) := do
  return (← parser source).map (ofTree path source)

/-- The snapshot of a file's bytes. -/
def ofBytes (parser : Parser m) (path : String) (bytes : List UInt8) :
    m (Except ParseError Snapshot) :=
  match decodeSource bytes with
  | .ok source => ofSource parser path source
  | .error error => return .error error

def lineIndex (s : Snapshot) (offset : Nat) : Nat := Line.indexAt s.lines offset

def position (s : Snapshot) (offset : Nat) : Position := Line.positionAt s.lines offset

/-- Where a span is, in words of 32 bits. -/
def location (s : Snapshot) (span : Span) : Location :=
  ⟨(s.position span.start).cut, (s.position span.stop).cut⟩

end Snapshot
end Tidymark
