import Tidymark.Markdown.Phrase

/-! # Line endings in text

Blanks around a line ending are left out; two or more spaces before one make a hard break. -/
namespace Tidymark.Markdown.Piece

def isEnding : Piece → Bool
  | ending _ => true
  | _ => false

/-- Leaves out blanks at the start of plain cells. Where a container has cut a tab, the text starts
one byte early: with the last of the blanks, or with the tab itself. -/
def trimStart (cells : List Cell) : List Cell :=
  let rest := Cells.dropBlanks cells
  match cells with
  | [] => []
  | c :: _ =>
    if c.step = 0 || rest.isEmpty then rest
    else
      let blanks := (Cells.before cells rest).filter fun d => !d.raw.isEmpty
      let tab := { c with char := '\t', raw := ['\t'], stop := c.start + 1, step := 0 }
      blanks.getLast?.getD tab :: rest

/-- Leaves out blanks at the end of plain cells. With `breaks`, two or more spaces become a hard
break. -/
def trimEnd (breaks : Bool) (cells : List Cell) : List Cell × List Piece :=
  let kept := (cells.reverse.dropWhile Cell.isBlank).reverse
  let blanks := (cells.drop kept.length).filter fun c => !c.raw.isEmpty
  let start := Cells.start 0 (if kept.isEmpty then cells else blanks)
  let more :=
    if breaks && 2 ≤ blanks.length && blanks.all (·.char == ' ') then [hardBreak start] else []
  (kept, more)

/-- Trims plain cells next to line endings, and with `whole` those at both ends of the text;
`atStart` tells that nothing but a line ending comes before. -/
def trimLines (whole atStart : Bool) : List Piece → List Piece
  | [] => []
  | plain cells :: rest =>
    let last := rest.isEmpty
    let (front, more) :=
      if (whole && last) || rest.head?.any isEnding then trimEnd (!last) cells else (cells, [])
    let front := if atStart then trimStart front else front
    (if front.isEmpty then more else plain front :: more) ++ trimLines whole false rest
  | ending c :: rest => ending c :: trimLines whole true rest
  | piece :: rest => piece :: trimLines whole false rest

end Tidymark.Markdown.Piece
