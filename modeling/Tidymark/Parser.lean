import Tidymark.Markdown
import Tidymark.Text.Utf8

/-! # Parsers

A parser turns a text into a tree. It may fail, and it may use the effects of `m`. -/
namespace Tidymark

inductive ParseError where
  | malformed (message : String) (offset : Option Nat)
  /-- The bytes are no UTF-8 from `offset` on. -/
  | invalidUtf8 (offset : Nat)
  | tooLarge (size : Nat)
  deriving DecidableEq, Repr

namespace ParseError

def message : ParseError → String
  | malformed message _ => "Malformed markdown: " ++ message
  | invalidUtf8 offset => "Invalid UTF-8 at byte " ++ toString offset
  | tooLarge size => "Source is " ++ toString size ++ " bytes, larger than the 4 GiB limit"

def offset? : ParseError → Option Nat
  | malformed _ offset => offset
  | invalidUtf8 offset => some offset
  | tooLarge _ => none

end ParseError

def Parser (m : Type → Type) : Type := Text → m (Except ParseError Node)

/-- The text of a document's bytes. -/
def decodeSource (bytes : List UInt8) : Except ParseError Text :=
  (Text.decode bytes).mapError .invalidUtf8

/-- The largest size of a document in bytes. -/
def sizeLimit : Nat := Nat.pow 2 32 - 1

namespace Markdown

/-- A library that tells of a text as a document, or why it cannot. -/
def Library : Type := Text → Except String Part

/-- The tree of a document below the size limit, by what a library tells of it. If a heading or code
lies where the source cannot be cut, there is no tree. -/
def readWith (library : Library) (source : Text) : Except ParseError Node :=
  if sizeLimit < source.size then .error (.tooLarge source.size)
  else
    match library source with
    | .error message => .error (.malformed message none)
    | .ok root =>
      match root.toNode? source with
      | some node => .ok node
      | none => .error (.malformed "byte range does not cut the source" none)

/-- The library at hand, to which every text is a document. -/
def library : Library := fun source => .ok (document source)

/-- Markdown below the size limit. -/
def read : Text → Except ParseError Node := readWith library

/-- The tree of a document. -/
def parse (source : Text) : Node := ((document source).toNode? source).getD default

end Markdown

def Parser.markdown {m : Type → Type} [Pure m] : Parser m := fun source =>
  pure (Markdown.read source)

end Tidymark
