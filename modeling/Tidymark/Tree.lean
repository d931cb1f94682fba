import Tidymark.Text
import Tidymark.Span

/-! # The document tree

A parsed document is a tree of nodes. Each node has a kind, the bytes that it covers, its children
in source order, and, depending on the kind, a literal value or further data. Consumers of a tree
assume nothing about how these fit together: spans may overlap, and any data may come with any
kind. -/
namespace Tidymark

inductive NodeKind where
  | root | paragraph | heading | thematicBreak | blockquote | list | listItem | code | html
  | definition | frontMatter | table | tableRow | tableCell | footnoteDefinition
  | text | emphasis | strong | delete | inlineCode | lineBreak | link | image | linkReference
  | imageReference | footnoteReference
  deriving DecidableEq, Repr

namespace NodeKind

def all : List NodeKind :=
  [root, paragraph, heading, thematicBreak, blockquote, list, listItem, code, html, definition,
    frontMatter, table, tableRow, tableCell, footnoteDefinition, text, emphasis, strong, delete,
    inlineCode, lineBreak, link, image, linkReference, imageReference, footnoteReference]

def name : NodeKind → String
  | root => "root"
  | paragraph => "paragraph"
  | heading => "heading"
  | thematicBreak => "thematicBreak"
  | blockquote => "blockquote"
  | list => "list"
  | listItem => "listItem"
  | code => "code"
  | html => "html"
  | definition => "definition"
  | frontMatter => "frontMatter"
  | table => "table"
  | tableRow => "tableRow"
  | tableCell => "tableCell"
  | footnoteDefinition => "footnoteDefinition"
  | text => "text"
  | emphasis => "emphasis"
  | strong => "strong"
  | delete => "delete"
  | inlineCode => "inlineCode"
  | lineBreak => "break"
  | link => "link"
  | image => "image"
  | linkReference => "linkReference"
  | imageReference => "imageReference"
  | footnoteReference => "footnoteReference"

def ofName? (s : String) : Option NodeKind := all.find? (·.name == s)

/-- Whether the kind stands for a block of its own. -/
def isBlock : NodeKind → Bool
  | root | paragraph | heading | thematicBreak | blockquote | list | listItem | code
  | definition | frontMatter | table | tableRow | footnoteDefinition => true
  | _ => false

/-- Whether the source of the node is not prose, so that whitespace in it counts. -/
def isVerbatim : NodeKind → Bool
  | code | inlineCode | html | frontMatter => true
  | _ => false

theorem ofName?_name (k : NodeKind) : ofName? k.name = some k := by cases k <;> decide +kernel

end NodeKind

/-- What a node carries besides its children and value. -/
inductive NodeData where
  | none
  | heading (depth : Nat) (setext : Bool)
  | list (ordered : Bool) (start : Option Nat) (spread : Bool)
  | code (lang : Option Text) (fenced : Bool)
  | link (url : Text) (title : Option Text)
  deriving DecidableEq, Repr

inductive Node where
  | mk (kind : NodeKind) (span : Span) (children : List Node) (value : Option Text)
    (data : NodeData)
  deriving Repr

instance : Inhabited Node := ⟨.mk .root ⟨0, 0⟩ [] none .none⟩

namespace Node

def kind : Node → NodeKind
  | mk k .. => k

def span : Node → Span
  | mk _ s .. => s

def children : Node → List Node
  | mk _ _ cs .. => cs

def value : Node → Option Text
  | mk _ _ _ v _ => v

def data : Node → NodeData
  | mk _ _ _ _ d => d

/-- A node with children. -/
def branch (kind : NodeKind) (span : Span) (children : List Node) (data : NodeData := .none) :
    Node :=
  mk kind span children none data

/-- A node that holds a literal value. -/
def literal (kind : NodeKind) (span : Span) (value : Text) (data : NodeData := .none) : Node :=
  mk kind span [] (some value) data

/-- A node that only marks a place. -/
def leaf (kind : NodeKind) (span : Span) (data : NodeData := .none) : Node :=
  mk kind span [] none data

def hasChildren (n : Node) : Bool := !n.children.isEmpty

def headingDepth? (n : Node) : Option Nat :=
  match n.data with
  | .heading depth _ => some depth
  | _ => none

/-- Whether the node is a heading marked by hashes rather than underlined. -/
def isAtxHeading (n : Node) : Bool :=
  match n.data with
  | .heading _ setext => !setext
  | _ => false

def codeLang? (n : Node) : Option Text :=
  match n.data with
  | .code lang _ => lang
  | _ => none

end Node
end Tidymark
