import Tidymark.Markdown.Cell

/-! # Recognisers

A recogniser takes something off the front of some cells and answers with the rest, or fails. They
combine in the `Option` monad. -/
namespace Tidymark.Markdown

abbrev Recogniser := List Cell → Option (List Cell)

def isAlpha (c : Char) : Bool := c.isAlpha

def isAlphanum (c : Char) : Bool := c.isAlphanum

/-- Control characters of ASCII other than the null character. -/
def isControl (c : Char) : Bool := (1 ≤ c.toNat && c.toNat ≤ 0x1F) || c.toNat == 0x7F

def isAsciiPunctuation (c : Char) : Bool :=
  let n := c.toNat
  (0x21 ≤ n && n ≤ 0x2F) || (0x3A ≤ n && n ≤ 0x40) || (0x5B ≤ n && n ≤ 0x60) ||
  (0x7B ≤ n && n ≤ 0x7E)

namespace Scan

/-- One cell of a class. -/
def one (p : Char → Bool) : Recogniser
  | [] => none
  | c :: cells => if p c.char then some cells else none

def char (x : Char) : Recogniser := one (· == x)

/-- The characters of `s`, one after another. -/
def chars : List Char → Recogniser
  | [], cells => some cells
  | x :: s, cells => (char x cells).bind (chars s)

/-- As many cells of a class as there are. -/
def many (p : Char → Bool) (cells : List Cell) : List Cell := cells.dropWhile (p ·.char)

/-- Blanks, at most one line ending, and blanks again. -/
def blanksAcrossEnding (cells : List Cell) : List Cell :=
  match Cells.dropBlanks cells with
  | c :: rest => if c.isEnding then Cells.dropBlanks rest else c :: rest
  | [] => []

/-- The number of cells at the front that hold `x`. -/
def count (x : Char) (cells : List Cell) : Nat := (cells.takeWhile (·.char == x)).length

/-- Nothing but blanks. -/
def onlyBlanks (cells : List Cell) : Option Unit :=
  if Cells.allBlank cells then some () else none

end Scan
end Tidymark.Markdown
