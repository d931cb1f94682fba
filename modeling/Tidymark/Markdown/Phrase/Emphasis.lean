import Tidymark.Markdown.Phrase.Lines

/-! # Emphasis

Runs of asterisks, underscores and tildes are matched from the inside out: each run that may close
looks back for the nearest run that may open. -/
namespace Tidymark.Markdown

namespace Delimiters

/-- Reads what a run may do off the characters around it. A run opens when text follows, and
closes when text precedes; underscores do neither inside of a word. -/
def ofRun (marker : Char) (cells : List Cell) : Delimiters :=
  let before := cells.head?.bind (·.previous)
  let after := cells.getLast?.bind (·.next)
  let b := CharClass.of? before
  let a := CharClass.of? after
  let isMarker (c? : Option Char) : Bool :=
    marker != '~' && c?.any fun c => c == '*' || c == '_' || c == '~'
  let opens := a == .other || (a == .punctuation && b != .other) || isMarker after
  let closes := b == .other || (b == .punctuation && a != .other) || isMarker before
  if marker == '_' then
    ⟨marker, cells, opens && (b != .other || !closes), closes && (a != .other || !opens)⟩
  else ⟨marker, cells, opens, closes⟩

/-- Whether two runs may be matched. A run that may both open and close is matched only if the
sizes do not add up to a multiple of three, or both are one. Tildes match in equal numbers. -/
def matches? (opener closer : Delimiters) : Bool :=
  let m := opener.cells.length
  let n := closer.cells.length
  opener.opens && opener.marker == closer.marker &&
  !((opener.closes || closer.opens) && n % 3 != 0 && (m + n) % 3 == 0) &&
  (opener.marker != '~' || (m == n && n ≤ 2))

end Delimiters

namespace Piece

/-- Takes a run that matched nothing for plain characters. -/
def settle : Piece → Piece
  | delimiters run => plain run.cells
  | piece => piece

/-- The pieces behind the nearest run that matches `closer`, the run, and the pieces before it; all
in reverse. -/
def findOpener (closer : Delimiters) :
    List Piece → Option (List Piece × Delimiters × List Piece)
  | [] => none
  | delimiters run :: rest =>
    if run.matches? closer then some ([], run, rest)
    else (findOpener closer rest).map fun (inner, found) => (delimiters run :: inner, found)
  | piece :: rest =>
    (findOpener closer rest).map fun (inner, found) => (piece :: inner, found)

def delimitersIfAny (run : Delimiters) (pieces : List Piece) : List Piece :=
  if run.cells.isEmpty then pieces else delimiters run :: pieces

/-- Puts a run behind `pieces`, which are in reverse, and matches as much of it as possible. -/
def pushRun : Nat → Delimiters → List Piece → List Piece
  | 0, run, pieces => delimitersIfAny run pieces
  | fuel + 1, run, pieces =>
    if run.cells.isEmpty then pieces
    else
      let found := if run.closes then findOpener run pieces else none
      match found with
      | none => delimiters run :: pieces
      | some (inner, opener, rest) =>
        let take := if 1 < opener.cells.length && 1 < run.cells.length then 2 else 1
        let keep := opener.cells.length - take
        let kind : PartKind :=
          if run.marker == '~' then .delete else if take = 1 then .emphasis else .strong
        let start := Cells.start 0 (opener.cells.drop keep)
        let stop := ((run.cells.take take).getLast?.map (·.stop)).getD 0
        let inside := trimLines false false (joinPlain (inner.reverse.map settle))
        let part := group kind ⟨start, stop⟩ inside
        pushRun fuel { run with cells := run.cells.drop take }
          (part :: delimitersIfAny { opener with cells := opener.cells.take keep } rest)

/-- Matches all runs among some pieces. -/
def matchRuns (pieces : List Piece) : List Piece :=
  let matched := pieces.foldl
    (fun done piece =>
      match piece with
      | delimiters run => pushRun (run.cells.length + 1) run done
      | piece => piece :: done) []
  joinPlain (matched.reverse.map settle)

end Piece
end Tidymark.Markdown
