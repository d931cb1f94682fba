import Tidymark.Text.Punctuation
import Tidymark.Markdown.Part
import Tidymark.Markdown.Scan

/-! # Phrases

Text is first cut into pieces. What a run of asterisks or an opening bracket means shows only
later, so pieces are put together step by step before they become parts of the document. -/
namespace Tidymark.Markdown

/-- How a character bears on the markers next to it. -/
inductive CharClass where
  | space | punctuation | other
  deriving DecidableEq, Repr

def CharClass.of (c : Char) : CharClass :=
  if Text.isWhitespace c then space
  else if Text.isPunctuation c then punctuation
  else other

/-- The ends of a text count as white space. -/
def CharClass.of? (c? : Option Char) : CharClass := (c?.map of).getD space

/-- A run of one emphasis marker. -/
structure Delimiters where
  marker : Char
  cells : List Cell
  opens : Bool
  closes : Bool
  deriving Repr

inductive Piece where
  /-- Characters without a meaning of their own. -/
  | plain (cells : List Cell)
  | ending (cell : Cell)
  /-- A reference or an escape, and the text that it stands for. -/
  | literal (span : Span) (value : Text)
  /-- A part that needs no more work. -/
  | part (part : Part)
  /-- A hard line break; the next piece is the line ending that belongs to it. -/
  | hardBreak (start : Nat)
  | delimiters (run : Delimiters)
  /-- A part that holds further pieces. -/
  | group (kind : PartKind) (span : Span) (children : List Piece)

namespace Piece

/-- Puts a piece in front; plain characters that touch become one piece. -/
def cons (piece : Piece) (pieces : List Piece) : List Piece :=
  match piece, pieces with
  | plain cells, plain more :: rest => plain (cells ++ more) :: rest
  | _, _ => piece :: pieces

/-- Joins plain characters that touch. -/
def joinPlain (pieces : List Piece) : List Piece := pieces.foldr cons []

end Piece
end Tidymark.Markdown
