import Tidymark.Text
import Tidymark.Span

/-! # Lines

A text is cut behind each line feed, and the pieces follow one another without a gap. A line ends
in a line feed, in a carriage return and a line feed, or, if it is the last one, in nothing. -/
namespace Tidymark

structure Line where
  start : Nat
  /-- The line without its terminator. -/
  text : Text
  terminator : Text
  /-- Whether the line belongs to code or front matter. -/
  verbatim : Bool
  deriving DecidableEq, Repr

namespace Line

/-- The terminator at the end of a piece. -/
def terminatorOf (piece : Text) : Text :=
  match piece.reverse with
  | '\n' :: '\r' :: _ => ['\r', '\n']
  | '\n' :: _ => ['\n']
  | _ => []

/-- The line that starts at an offset and holds `piece`, terminator included. -/
def ofPiece (start : Nat) (piece : Text) : Line :=
  let terminator := terminatorOf piece
  ⟨start, piece.take (piece.length - terminator.length), terminator, false⟩

/-- Offset of the terminator. -/
def newlineStart (l : Line) : Nat := l.start + l.text.size

/-- Offset behind the terminator. -/
def stop (l : Line) : Nat := l.newlineStart + l.terminator.size

def hasNewline (l : Line) : Bool := !l.terminator.isEmpty

/-- The line without its terminator. -/
def contentSpan (l : Line) : Span := ⟨l.start, l.newlineStart⟩

/-- The line with its terminator. -/
def span (l : Line) : Span := ⟨l.start, l.stop⟩

def isBlank (l : Line) : Bool := l.text.all Text.isWhitespace

/-- The white space before the first other character; a blank line has no indentation. -/
def indentation (l : Line) : Text :=
  if l.isBlank then [] else l.text.takeWhile Text.isWhitespace

def indentBytes (l : Line) : Nat := l.indentation.size

/-- The column after a character, in 32 bits: a tab goes on to the next multiple of four. -/
def advance (column : UInt32) (c : Char) : UInt32 :=
  if c == '\t' then (column + 4) / 4 * 4 else column + 1

/-- The width of the indentation in columns. -/
def indent (l : Line) : Nat := (l.indentation.foldl advance 0).toNat

/-- Offset of the first character that is not white space. -/
def contentStart (l : Line) : Nat := l.start + l.indentBytes

/-- Cuts a text behind each line feed. -/
def pieces : Text → List Text
  | [] => []
  | c :: t =>
    if c == '\n' then [c] :: pieces t
    else match pieces t with
      | [] => [[c]]
      | piece :: rest => (c :: piece) :: rest

/-- Lines with these contents, the first at `start`. -/
def layOut (start : Nat) : List Text → List Line
  | [] => []
  | piece :: rest => ofPiece start piece :: layOut (start + piece.size) rest

/-- The lines of a text. -/
def ofText (source : Text) : List Line := layOut 0 (pieces source)

/-- Which of `lines`, counted from zero, an offset lies on. Behind a final terminator this is the
number of lines. -/
def indexAt (lines : List Line) (offset : Nat) : Nat :=
  let i := (lines.takeWhile fun l => l.start ≤ offset).length - 1
  match lines[i]? with
  | some line => if line.stop ≤ offset && line.hasNewline then i + 1 else i
  | none => i

def positionAt (lines : List Line) (offset : Nat) : Position :=
  let i := indexAt lines offset
  let start :=
    match lines[i]? with
    | some line => line.start
    | none => (lines.getLast?.map stop).getD 0
  ⟨i + 1, offset - start + 1⟩

/-- The pieces of a text make it up. -/
theorem flatten_pieces (t : Text) : (pieces t).flatten = t := by
  induction t with
  | nil => rfl
  | cons c t ih =>
    simp only [pieces]
    split
    · simp [ih]
    · split
      · rename_i h
        simpa [h] using ih
      · rename_i h
        simpa [h] using ih

end Line
end Tidymark
