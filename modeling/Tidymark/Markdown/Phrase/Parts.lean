import Tidymark.Markdown.Phrase.Read

/-! # From text to parts

Outside of links, mail addresses in plain text become links. Text that touches is one part. -/
namespace Tidymark.Markdown

/-- Puts a part in front; texts that touch become one part. -/
def joinText (part : Part) (parts : List Part) : List Part :=
  match part, parts with
  | .mk (.text value) (some span) children, .mk (.text rest) (some more) _ :: others =>
    .mk (.text (value ++ rest)) (some ⟨span.start, more.stop⟩) children :: others
  | _, _ => part :: parts

/-- Turns parts around that are in reverse, and joins texts that touch. -/
def inOrder (parts : List Part) : List Part := parts.foldl (fun rest part => joinText part rest) []

def addText (start stop : Nat) (value : Text) (parts : List Part) : List Part :=
  .leaf (.text value) ⟨start, stop⟩ :: parts

def addPlain (cells : List Cell) (parts : List Part) : List Part :=
  match cells.getLast? with
  | some last => addText (Cells.start 0 cells) last.stop (Cells.raw cells) parts
  | none => parts

mutual

/-- The part of a piece in front of `parts`, which are in reverse. -/
def Piece.addTo (inLink : Bool) (parts : List Part) : Piece → List Part
  | .plain cells =>
    if inLink then addPlain cells parts
    else
      (Autolink.splitMails (cells.length + 1) [] cells).foldl
        (fun parts piece =>
          match piece with
          | .plain cells => addPlain cells parts
          | .part found => found :: parts
          | _ => parts) parts
  | .ending cell => addText cell.start cell.stop cell.raw parts
  | .literal span value => addText span.start span.stop value parts
  | .part found => found :: parts
  | .hardBreak start => .leaf .lineBreak ⟨start, start⟩ :: parts
  | .delimiters run => addPlain run.cells parts
  | .group kind span children =>
    .branch kind span (inOrder (Piece.addAll (inLink || kind.isLink) [] children)) :: parts

def Piece.addAll (inLink : Bool) (parts : List Part) : List Piece → List Part
  | [] => parts
  | .hardBreak start :: .ending cell :: rest =>
    Piece.addAll inLink (.leaf .lineBreak ⟨start, cell.stop⟩ :: parts) rest
  | piece :: rest => Piece.addAll inLink (piece.addTo inLink parts) rest

end

/-- The parts of a text; `atStart` tells that nothing comes before it. -/
def phrases (s : Surroundings) (atStart : Bool) (cells : List Cell) : List Part :=
  inOrder (Piece.addAll false [] (Piece.trimLines true atStart (piecesOf s cells)))

end Tidymark.Markdown
