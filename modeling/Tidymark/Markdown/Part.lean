import Tidymark.Text.Whitespace
import Tidymark.Tree

/-! # Parts of a document

A Markdown library tells of a document as a tree of parts. Each part becomes a node. How headings
and code are written the library does not tell: that is guessed from the source. -/
namespace Tidymark.Markdown

/-- What a part of a document is, with what a library tells of it. -/
inductive PartKind where
  | root | paragraph | blockquote | listItem | footnoteDefinition | table | tableRow | tableCell
  | emphasis | strong | delete | linkReference
  | heading (depth : Nat)
  | list (ordered : Bool) (start : Option Nat) (spread : Bool)
  | link (url : Text) (title : Option Text)
  | text (value : Text)
  | inlineCode (value : Text)
  | code (lang : Option Text) (value : Text)
  | html (value : Text)
  | yaml (value : Text)
  | toml (value : Text)
  | image (url : Text) (title : Option Text)
  | definition (url : Text) (title : Option Text)
  | imageReference | footnoteReference | thematicBreak | lineBreak
  /-- Anything that a library only finds when asked for it. -/
  | other
  deriving DecidableEq, Repr

namespace PartKind

def nodeKind : PartKind → NodeKind
  | root => .root
  | paragraph => .paragraph
  | blockquote => .blockquote
  | listItem => .listItem
  | footnoteDefinition => .footnoteDefinition
  | table => .table
  | tableRow => .tableRow
  | tableCell => .tableCell
  | emphasis => .emphasis
  | strong => .strong
  | delete => .delete
  | linkReference => .linkReference
  | heading _ => .heading
  | list .. => .list
  | link .. => .link
  | text _ => .text
  | inlineCode _ => .inlineCode
  | code .. => .code
  | html _ => .html
  | yaml _ => .frontMatter
  | toml _ => .frontMatter
  | image .. => .image
  | definition .. => .definition
  | imageReference => .imageReference
  | footnoteReference => .footnoteReference
  | thematicBreak => .thematicBreak
  | lineBreak => .lineBreak
  | other => .html

/-- Whether the node of the part has the nodes of what is inside as its children. -/
def isParent : PartKind → Bool
  | root | paragraph | blockquote | listItem | footnoteDefinition | table | tableRow | tableCell
  | emphasis | strong | delete | linkReference | heading _ | list .. | link .. => true
  | _ => false

def value? : PartKind → Option Text
  | text value | inlineCode value | code _ value | html value | yaml value | toml value =>
    some value
  | _ => none

def isLink : PartKind → Bool
  | link .. | linkReference => true
  | _ => false

end PartKind

/-- A part of a document, the bytes that it covers if they are known, and the parts inside. -/
inductive Part where
  | mk (kind : PartKind) (place : Option Span) (children : List Part)
  deriving Repr

namespace Part

def kind : Part → PartKind
  | mk k .. => k

def place : Part → Option Span
  | mk _ p _ => p

/-- A part with others inside. -/
def branch (kind : PartKind) (span : Span) (children : List Part) : Part :=
  mk kind (some span) children

def leaf (kind : PartKind) (span : Span) : Part := mk kind (some span) []

end Part

/-- The span of a part in 32-bit words. -/
def spanOf : Option Span → Span
  | some place => ⟨place.start % UInt32.size, place.stop % UInt32.size⟩
  | none => ⟨0, 0⟩

/-- Whether the text of a heading does not start with a hash. -/
def looksSetext (text : Text) : Bool := (text.dropWhile Text.isSpaceOrTab).head? != some '#'

/-- Whether the text of a code block starts with a fence. -/
def looksFenced (text : Text) : Bool :=
  let opening := text.dropWhile (· == ' ')
  Text.startsWith opening ['`', '`', '`'] || Text.startsWith opening ['~', '~', '~']

/-- What the node of a part carries. There is an answer for a heading and for code if the span cuts
their text out of the source. -/
def PartKind.data? (source : Text) (span : Span) : PartKind → Option NodeData
  | heading depth => do
    let text ← source.slice? span.start span.stop
    return .heading depth (looksSetext text)
  | code lang _ => do
    let text ← source.slice? span.start span.stop
    return .code lang (looksFenced text)
  | list ordered start spread => some (.list ordered start spread)
  | link url title | image url title | definition url title => some (.link url title)
  | _ => some .none

mutual

/-- The node of a part, if all headings and code in it can be cut out of the source. -/
def Part.toNode? (source : Text) : Part → Option Node
  | .mk kind place children => do
    let inside ← (if kind.isParent then Part.toNodes? source children else some [])
    let data ← kind.data? source (spanOf place)
    return .mk kind.nodeKind (spanOf place) inside kind.value? data

def Part.toNodes? (source : Text) : List Part → Option (List Node)
  | [] => some []
  | part :: rest => do
    let node ← part.toNode? source
    let nodes ← Part.toNodes? source rest
    return node :: nodes

end

end Tidymark.Markdown
