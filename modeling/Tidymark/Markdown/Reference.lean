import Tidymark.Text.CaseFold
import Tidymark.Markdown.Entity
import Tidymark.Markdown.Scan

/-! # Labels, destinations and titles

The parts that link definitions and links in text share, and the form in which labels are
compared. -/
namespace Tidymark.Markdown

/-- A label in the form in which labels are compared: runs of blanks and line endings count as one
space, those at its ends not at all, and case not either. -/
def normaliseLabel (label : Text) : Text :=
  Text.caseless (collapse true label.reverse |>.reverse |> collapse true)
where
  isSpace (c : Char) : Bool := c == ' ' || c == '\t' || c == '\n' || c == '\r'
  collapse (pending : Bool) : Text → Text
    | [] => []
    | c :: t =>
      if isSpace c then if pending then collapse true t else ' ' :: collapse true t
      else c :: collapse false t

namespace Scan

/-- The longest label. -/
def maxLabel : Nat := 999

/-- The inside of a label in brackets, up to its closing bracket: `size` counts its bytes and
`seen` tells whether it holds more than blanks. -/
def labelInside : Nat → Nat → Bool → List Cell → Option (List Cell × List Cell)
  | 0, _, _, _ => none
  | _, _, _, [] => none
  | fuel + 1, size, seen, c :: cells =>
    if maxLabel < size || c.char == '[' then none
    else if c.char == ']' then if seen then some ([], c :: cells) else none
    else if c.isEnding then
      let rest := Cells.dropBlanks cells
      (labelInside fuel size seen rest).map fun (inside, behind) =>
        (c :: Cells.before cells rest ++ inside, behind)
    else
      let size := size + c.char.utf8Size
      let seen := seen || !c.isBlank
      match cells with
      | d :: rest =>
        if c.char == '\\' && (d.char == '[' || d.char == '\\' || d.char == ']') then
          (labelInside fuel (size + 1) seen rest).map fun (inside, behind) =>
            (c :: d :: inside, behind)
        else (labelInside fuel size seen (d :: rest)).map fun (inside, behind) =>
          (c :: inside, behind)
      | [] => none

/-- A label in brackets: what is inside, and what follows. -/
def label? (cells : List Cell) : Option (List Cell × List Cell) := do
  let rest ← char '[' cells
  let (inside, behind) ← labelInside (rest.length + 1) 0 false rest
  some (inside, behind.drop 1)

/-- A destination in angle brackets, behind the opening one. -/
def enclosed : List Cell → Option (List Cell × List Cell)
  | [] => none
  | c :: cells =>
    if c.char == '>' then some ([], cells)
    else if c.isEnding || c.char == '<' then none
    else match cells with
      | d :: rest =>
        if c.char == '\\' && (d.char == '<' || d.char == '>' || d.char == '\\') then
          (enclosed rest).map fun (inside, behind) => (c :: d :: inside, behind)
        else (enclosed (d :: rest)).map fun (inside, behind) => (c :: inside, behind)
      | [] => none

/-- A destination without brackets: parentheses in it are balanced, at most `limit` deep. -/
def bare (limit : Nat) : Nat → List Cell → Option (List Cell × List Cell)
  | depth, [] => if depth = 0 then some ([], []) else none
  | depth, c :: cells =>
    if depth = 0 && (c.isBlank || c.isEnding || c.char == ')') then some ([], c :: cells)
    else if c.char == '(' && depth < limit then
      (bare limit (depth + 1) cells).map fun (inside, behind) => (c :: inside, behind)
    else if isControl c.char || c.char == ' ' || c.char == '(' then none
    else if c.char == ')' then
      (bare limit (depth - 1) cells).map fun (inside, behind) => (c :: inside, behind)
    else match cells with
      | d :: rest =>
        if c.char == '\\' && (d.char == '(' || d.char == ')' || d.char == '\\') then
          (bare limit depth rest).map fun (inside, behind) => (c :: d :: inside, behind)
        else (bare limit depth (d :: rest)).map fun (inside, behind) => (c :: inside, behind)
      | [] => (bare limit depth []).map fun (inside, behind) => (c :: inside, behind)

def destination? (limit : Nat) : List Cell → Option (List Cell × List Cell)
  | [] => none
  | c :: cells =>
    if c.char == '<' then enclosed cells
    else if isControl c.char || c.char == ' ' || c.char == ')' then none
    else bare limit 0 (c :: cells)

/-- A title behind its opening mark, up to `mark`. -/
def titleInside (mark : Char) : List Cell → Option (List Cell × List Cell)
  | [] => none
  | c :: cells =>
    if c.char == mark then some ([], cells)
    else match cells with
      | d :: rest =>
        if c.char == '\\' && (d.char == mark || d.char == '\\') then
          (titleInside mark rest).map fun (inside, behind) => (c :: d :: inside, behind)
        else (titleInside mark (d :: rest)).map fun (inside, behind) => (c :: inside, behind)
      | [] => none

def title? : List Cell → Option (List Cell × List Cell)
  | [] => none
  | c :: cells =>
    if c.char == '"' || c.char == '\'' then titleInside c.char cells
    else if c.char == '(' then titleInside ')' cells
    else none

end Scan

/-- The text of a destination, a title or an info word: escapes and character references give
what they stand for, and blanks around line endings are left out. -/
def stringText (cells : List Cell) : Text := decode (cells.length + 1) (trimLines cells)
where
  /-- Drops blanks before and behind line endings. -/
  trimLines : List Cell → List Cell
    | [] => []
    | c :: cells =>
      let rest := trimLines cells
      if c.isEnding then c :: Cells.dropBlanks rest
      else if c.isBlank && ((Cells.dropBlanks rest).head?.any Cell.isEnding) then
        Cells.dropBlanks rest
      else c :: rest
  decode : Nat → List Cell → Text
    | 0, _ => []
    | _, [] => []
    | fuel + 1, c :: cells =>
      if c.char == '\\' && (cells.head?.any fun d => isAsciiPunctuation d.char) then
        Cells.raw (cells.take 1) ++ decode fuel (cells.drop 1)
      else if c.char == '&' then
        match Entity.read? (Cells.chars (cells.take Entity.reach)) with
        | some (value, length) => value ++ decode fuel (cells.drop length)
        | none => c.raw ++ decode fuel cells
      else c.raw ++ decode fuel cells

end Tidymark.Markdown
