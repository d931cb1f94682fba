import Tidymark.Markdown.Definition
import Tidymark.Markdown.Phrase.Autolink
import Tidymark.Markdown.Phrase.Emphasis
import Tidymark.Markdown.Phrase.Html

/-! # Reading text

Text is read from left to right. Opening brackets wait for a closing one; whether the two make a
link depends on what follows and on the definitions of the document. -/
namespace Tidymark.Markdown

/-- What reading a text needs to know of the document around it. -/
structure Surroundings where
  source : Text
  /-- The labels of the link definitions and of the footnotes, in comparable form. -/
  definitions : List Text
  footnotes : List Text
  inTable : Bool
  /-- Where the text ends. -/
  stop : Nat := 0
  /-- The class of what follows the text. -/
  close : CharClass := .space

/-- The surroundings of a text that these cells hold. -/
def Surroundings.around (s : Surroundings) (cells : List Cell) : Surroundings :=
  match cells.getLast? with
  | some last => { s with stop := last.stop, close := .of? last.next }
  | none => s

/-- The inside of a code span and what follows its closing run of `size` marks. -/
def codeSpan? (size : Nat) : Nat → List Cell → Option (List Cell × List Cell)
  | 0, _ => none
  | _, [] => none
  | fuel + 1, c :: cells =>
    if c.char == '`' then
      let run := (c :: cells).takeWhile (·.char == '`')
      let rest := (c :: cells).dropWhile (·.char == '`')
      if run.length = size then some ([], rest)
      else (codeSpan? size fuel rest).map fun (inside, behind) => (run ++ inside, behind)
    else (codeSpan? size fuel cells).map fun (inside, behind) => (c :: inside, behind)

/-- In a table a backslash before a pipe in code is left out. -/
def unescapePipes : Text → Text
  | '\\' :: '|' :: t => '|' :: unescapePipes t
  | c :: t => c :: unescapePipes t
  | [] => []

/-- Takes one space off both ends of code, unless there are only spaces. -/
def trimCode (t : Text) : Text :=
  if t.head? == some ' ' && t.getLast? == some ' ' && t.any (· != ' ') then
    (t.drop 1).dropLast
  else t

inductive OpenerKind where
  | link | image | footnote
  deriving DecidableEq, Repr

/-- An opening bracket; one that is not active only waits for its closing bracket. -/
structure Opener where
  kind : OpenerKind
  active : Bool
  cells : List Cell

/-- The pieces read so far: those behind the last opening bracket, and each opening bracket with
the pieces before it. Pieces are in reverse, and the last bracket comes first. -/
structure Pending where
  pieces : List Piece
  openers : List (Opener × List Piece)

namespace Pending

def push (piece : Piece) (p : Pending) : Pending := { p with pieces := piece :: p.pieces }

def pushOpener (kind : OpenerKind) (cells : List Cell) (p : Pending) : Pending :=
  ⟨[], (⟨kind, true, cells⟩, p.pieces) :: p.openers⟩

/-- Takes the last opening bracket for plain characters. -/
def dropOpener (p : Pending) : Pending :=
  match p.openers with
  | [] => p
  | (opener, before) :: rest => ⟨p.pieces ++ .plain opener.cells :: before, rest⟩

/-- All pieces in order, with the brackets that were never closed as plain characters. -/
def finish (p : Pending) : List Piece :=
  (p.openers.foldl (fun pieces (opener, before) => pieces ++ .plain opener.cells :: before)
    p.pieces).reverse

end Pending

/-- Where a link leads: its address, or a definition. -/
inductive LinkTarget where
  | resource (url : Text) (title : Option Text)
  | definition

/-- The address and title in parentheses. -/
def resource? (cells : List Cell) : Option (LinkTarget × List Cell) := do
  let inside := Scan.blanksAcrossEnding (← Scan.char '(' cells)
  match Scan.char ')' inside with
  | some behind => some (.resource [] none, behind)
  | none =>
    let (url, behind) ← Scan.destination? 32 inside
    let url := stringText url
    let next := Scan.blanksAcrossEnding behind
    let mark := Cells.headChar? next
    if next.length < behind.length && (mark == some '"' || mark == some '\'' || mark == some '(')
    then
      let (title, behind) ← Scan.title? next
      let rest ← Scan.char ')' (Scan.blanksAcrossEnding behind)
      some (.resource url (if title.isEmpty then none else some (stringText title)), rest)
    else
      let rest ← Scan.char ')' next
      some (.resource url none, rest)

/-- What makes a link of a label, given what follows its closing bracket: an address, another
label that is defined, or a definition of the label itself. -/
def linkTarget? (s : Surroundings) (label : Text) (cells : List Cell) :
    Option (LinkTarget × List Cell) :=
  let isDefined := s.definitions.contains label
  let shortcut := if isDefined then some (LinkTarget.definition, cells) else none
  match Cells.headChar? cells with
  | some '(' => (resource? cells).or shortcut
  | some '[' =>
    let full := do
      let (inside, behind) ← Scan.label? cells
      let stop := Cells.start s.stop (cells.drop (inside.length + 1))
      let other := normaliseLabel (sourceBetween s.source (Cells.start stop inside) stop)
      if s.definitions.contains other then some (LinkTarget.definition, behind) else none
    let collapsed :=
      if isDefined then (Scan.char ']' (cells.drop 1)).map (LinkTarget.definition, ·) else none
    full.or collapsed
  | _ => shortcut

/-- Closes the last opening bracket at `bracket`: the part that the two make, and what follows. -/
def closeBracket? (s : Surroundings) (bracket : Cell) (cells : List Cell) (opener : Opener)
    (inside : List Piece) : Option (Piece × List Cell) := do
  let first ← opener.cells.head?
  let last ← opener.cells.getLast?
  let label := normaliseLabel (sourceBetween s.source last.stop bracket.start)
  if !opener.active then none
  else if opener.kind == .footnote && s.footnotes.contains label then
    some (.part (.leaf .footnoteReference ⟨first.start, bracket.stop⟩), cells)
  else
    let isFootnote := opener.kind == .footnote
    let (target, behind) ← linkTarget? s (if isFootnote then '^' :: label else label) cells
    let taken := Cells.before cells behind
    let span : Span := ⟨first.start, ((taken.getLast?.map (·.stop)).getD bracket.stop)⟩
    let children :=
      Piece.trimLines false false
        (Piece.matchRuns ((if isFootnote then [Piece.plain [last]] else []) ++ inside))
    match opener.kind, target with
    | .image, .resource url title => some (.part (.leaf (.image url title) span), behind)
    | .image, .definition => some (.part (.leaf .imageReference span), behind)
    | _, .resource url title => some (.group (.link url title) span children, behind)
    | _, .definition => some (.group .linkReference span children, behind)

/-- Reads a closing bracket. Links do not contain links, so opening brackets before a link can no
longer make one. -/
def closeBracket (s : Surroundings) (bracket : Cell) (cells : List Cell) (p : Pending) :
    Pending × List Cell :=
  match p.openers with
  | [] => (p.push (.plain [bracket]), cells)
  | (opener, before) :: rest =>
    match closeBracket? s bracket cells opener p.pieces.reverse with
    | none => (p.dropOpener.push (.plain [bracket]), cells)
    | some (piece, behind) =>
      let rest :=
        if opener.kind == .image then rest
        else rest.map fun (other, pieces) =>
          ({ other with active := other.active && other.kind == .image }, pieces)
      (⟨piece :: before, rest⟩, behind)

/-- Reads the piece that starts with `c`, brackets apart. `escaped` tells that the character
before is an escape. -/
def readPiece (s : Surroundings) (previous : Option Char) (escaped : Bool) (c : Cell)
    (cells : List Cell) : Piece × List Cell :=
  let plain := (Piece.plain [c], cells)
  let spanTo (behind : List Cell) : Span :=
    ⟨c.start, (((c :: Cells.before cells behind).getLast?.map (·.stop)).getD c.stop)⟩
  if c.isEnding then (.ending c, cells)
  else match c.char with
    | '&' =>
      match Entity.read? (Cells.chars (cells.take Entity.reach)) with
      | some (value, length) => (.literal (spanTo (cells.drop length)) value, cells.drop length)
      | none => plain
    | '\\' =>
      match cells with
      | d :: rest =>
        if isAsciiPunctuation d.char then (.literal ⟨d.start, d.stop⟩ d.raw, rest)
        else if d.isEnding then (.hardBreak c.start, cells)
        else plain
      | [] => plain
    | '`' =>
      if previous == some '`' && !escaped then plain
      else
        let rest := cells.dropWhile (·.char == '`')
        let size := cells.length - rest.length + 1
        match codeSpan? size (rest.length + 1) rest with
        | some (inside, behind) =>
          let value := Cells.raw inside
          let value := trimCode (if s.inTable then unescapePipes value else value)
          (.part (.leaf (.inlineCode value) (spanTo behind)), behind)
        | none => plain
    | '<' =>
      match Autolink.bracketed? (c :: cells) with
      | some (part, behind) => (.part part, behind)
      | none =>
        match Tag.inline? (c :: cells) with
        | some behind =>
          let value := Tag.inlineText (Cells.before (c :: cells) behind)
          (.part (.leaf (.html value) (spanTo behind)), behind)
        | none => plain
    | '*' | '_' | '~' =>
      let rest := cells.dropWhile (·.char == c.char)
      let run := c :: Cells.before cells rest
      (.delimiters (.ofRun c.char run), rest)
    | 'h' | 'H' | 'w' | 'W' =>
      match Autolink.bare? s.close previous s.stop (c :: cells) with
      | some (part, behind) => (.part part, behind)
      | none => plain
    | _ => plain

def Piece.isEscape : Piece → Bool
  | .literal span value => span.length = Text.size value
  | _ => false

/-- Reads all pieces of a text. -/
def readPieces (s : Surroundings) : Nat → Option Char → List Cell → Pending → Pending
  | 0, _, _, p => p
  | _, _, [], p => p
  | fuel + 1, previous, c :: cells, p =>
    let (p, rest) :=
      match c.char, Cells.chars (cells.take 2) with
      | '!', '[' :: '^' :: _ => (p.push (.plain [c]), cells)
      | '!', '[' :: _ => (p.pushOpener .image (c :: cells.take 1), cells.drop 1)
      | '[', '^' :: _ => (p.pushOpener .footnote (c :: cells.take 1), cells.drop 1)
      | '[', _ => (p.pushOpener .link [c], cells)
      | ']', _ => closeBracket s c cells p
      | _, _ =>
        let (piece, rest) := readPiece s previous (p.pieces.head?.any Piece.isEscape) c cells
        (p.push piece, rest)
    let taken := Cells.before (c :: cells) rest
    readPieces s fuel (taken.getLast?.map (·.char)) rest p

/-- The pieces of a text, with emphasis and links put together. -/
def piecesOf (s : Surroundings) (cells : List Cell) : List Piece :=
  Piece.matchRuns (readPieces s (cells.length + 1) none cells ⟨[], []⟩).finish

end Tidymark.Markdown
