import Tidymark.Markdown.Phrase

/-! # Links without brackets

Addresses in angle brackets, and addresses that stand in plain text. -/
namespace Tidymark.Markdown.Autolink

def isSchemeChar (c : Char) : Bool := isAlphanum c || c == '+' || c == '-' || c == '.'

/-- A scheme of two to 32 characters, a colon, and anything but blanks and angle brackets. -/
def scheme? (cells : List Cell) : Option (List Cell × List Cell) := do
  let behind ← Scan.one isAlpha cells
  let rest := Scan.many isSchemeChar behind
  let size := cells.length - rest.length
  let rest ← Scan.char ':' rest
  if 2 ≤ size && size ≤ 32 then
    let close := Scan.many (fun c => !(c.toNat ≤ 0x20 || c == '<' || c == '>' || c.toNat == 0x7F))
      rest
    let behind ← Scan.char '>' close
    some (Cells.before cells close, behind)
  else none

def isMailChar (c : Char) : Bool :=
  let n := c.toNat
  (0x23 ≤ n && n ≤ 0x27) || c == '*' || c == '+' || (0x2D ≤ n && n ≤ 0x39) || c == '=' ||
  c == '?' || ('A' ≤ c && c ≤ 'Z') || (0x5E ≤ n && n ≤ 0x7E)

/-- The labels of a mail domain, up to the closing angle bracket: each has at most 63 characters
and neither starts nor ends with a dash. -/
def mailDomain? : Nat → Bool → List Cell → Option (List Cell)
  | _, _, [] => none
  | size, dash, c :: cells =>
    if isAlphanum c.char && size < 63 then mailDomain? (size + 1) false cells
    else if c.char == '-' && 0 < size && size < 63 then mailDomain? (size + 1) true cells
    else if size = 0 || dash then none
    else if c.char == '.' then mailDomain? 0 false cells
    else if c.char == '>' then some (c :: cells)
    else none

def mail? (cells : List Cell) : Option (List Cell × List Cell) := do
  let behind ← Scan.one isMailChar cells
  let domain ← Scan.char '@' (Scan.many isMailChar behind)
  let close ← mailDomain? 0 false domain
  some (Cells.before cells close, close.drop 1)

/-- A link whose text is its address. -/
def link (span inner : Span) (url text : Text) : Part :=
  .branch (.link url none) span [.leaf (.text text) inner]

/-- The address in angle brackets that starts with the first of `cells`. -/
def bracketed? (cells : List Cell) : Option (Part × List Cell) := do
  let open_ ← cells.head?
  let inside ← Scan.char '<' cells
  let (address, behind, isMail) ←
    match scheme? inside with
    | some (address, behind) => some (address, behind, false)
    | none => (mail? inside).map fun (address, behind) => (address, behind, true)
  let text := Cells.raw address
  let stop := open_.stop + text.size
  let url := if isMail then "mailto:".toList ++ text else text
  some (link ⟨open_.start, stop + 1⟩ ⟨open_.stop, stop⟩ url text, behind)

/-- Punctuation that does not end an address when more of the address follows it. -/
def isTrailing (c : Char) : Bool :=
  "!\"')*,.:;?_~".toList.contains c

/-- Whether only trailing punctuation lies between here and the end of the address. A reference
counts as trailing, and so does a bracket; `close` is the class of what follows the text. -/
def isTrail (close : CharClass) : Nat → List Cell → Bool
  | 0, _ => false
  | _, [] => close == .space
  | fuel + 1, c :: cells =>
    if isTrailing c.char then isTrail close fuel cells
    else if c.char == '&' then
      let behind := Scan.many isAlpha cells
      if behind.length < cells.length && Cells.headChar? behind == some ';' then
        isTrail close fuel (behind.drop 1)
      else false
    else if c.char == '<' then true
    else if c.char == ']' then
      cells.head?.all (fun d => d.isBlank || d.isEnding || d.char == '(' || d.char == '[') ||
        isTrail close fuel cells
    else CharClass.of c.char == .space

/-- What is behind the domain. The last two of its parts hold no underscore; `last` and `before`
tell whether one was seen in them, `seen` whether there was anything else than punctuation. -/
def domain? (close : CharClass) (seen last before : Bool) :
    List Cell → Option (List Cell)
  | [] => if before || last || !seen then none else some []
  | c :: cells =>
    let here := if before || last || !seen then none else some (c :: cells)
    if c.char == '.' || c.char == '_' then
      if isTrail close (cells.length + 2) (c :: cells) then here
      else if c.char == '_' then domain? close seen true before cells
      else domain? close seen false last cells
    else if c.char == '-' then domain? close seen last before cells
    else if CharClass.of c.char == .other then domain? close true last before cells
    else here

/-- What is behind the path: it ends at white space or before trailing punctuation, but closing
parentheses that were opened in it belong to it. -/
def pathEnd (close : CharClass) (opened closed : Nat) : List Cell → List Cell
  | [] => []
  | c :: cells =>
    if c.char == '(' then pathEnd close (opened + 1) closed cells
    else if isTrailing c.char || c.char == '&' || c.char == '<' || c.char == ']' then
      let isClose := c.char == ')'
      if isTrail close (cells.length + 2) (c :: cells) && !(isClose && closed < opened) then
        c :: cells
      else pathEnd close opened (if isClose then closed + 1 else closed) cells
    else if CharClass.of c.char == .space then c :: cells
    else pathEnd close opened closed cells

def address? (close : CharClass) (cells : List Cell) : Option (List Cell) :=
  (domain? close false false false cells).map (pathEnd close 0 0)

/-- What is behind `http://` or `https://`. -/
def protocol? (cells : List Cell) : Option (List Cell) := do
  let behind := Scan.many isAlpha cells
  let name := (Cells.chars (Cells.before cells behind)).map Char.toLower
  if name == "http".toList || name == "https".toList then
    Scan.chars [':', '/', '/'] behind
  else none

/-- Whether an address may start with `www.` behind this character. -/
def mayPrecedeWww (c? : Option Char) : Bool :=
  c?.all (" \t\n(*_[]~".toList.contains ·)

/-- The address that starts with the first of `cells` in plain text. -/
def bare? (close : CharClass) (previous : Option Char) (stop : Nat) (cells : List Cell) :
    Option (Part × List Cell) := do
  let c ← cells.head?
  let (behind, scheme) ←
    if c.char == 'h' || c.char == 'H' then
      if previous.any isAlpha then none
      else
        let rest ← protocol? cells
        (address? close rest).map (·, "")
    else
      if !mayPrecedeWww previous then none
      else
        let rest ← Scan.char '.' (cells.drop 3)
        if (Cells.chars (cells.take 3)).all (fun w => w == 'w' || w == 'W') && !rest.isEmpty then
          (address? close cells).map (·, "http://")
        else none
  let span : Span := ⟨c.start, Cells.start stop behind⟩
  let text := Cells.raw (Cells.before cells behind)
  some (link span span (scheme.toList ++ text) text, behind)

def isMailLiteralChar (c : Char) : Bool :=
  isAlphanum c || c == '+' || c == '-' || c == '.' || c == '_'

/-- What is behind a mail domain in plain text: it holds a dot and ends in a letter. -/
def literalDomain (slashes : Bool) : List Cell → List Cell × Bool
  | [] => ([], false)
  | c :: cells =>
    let goes :=
      isAlphanum c.char || c.char == '-' || c.char == '_' || (slashes && c.char == '/') ||
      (c.char == '.' && cells.head?.any fun d => isAlphanum d.char)
    if goes then
      let (rest, dotted) := literalDomain slashes cells
      (rest, dotted || c.char == '.')
    else (c :: cells, false)

/-- The mail address around an at sign; `before` holds the cells in front of it in reverse. Gives
what stays in front, in reverse, the link, and what follows. -/
def mailAround? (before : List Cell) (sign : Cell) (cells : List Cell) :
    Option (List Cell × Part × List Cell) := do
  let front := before.dropWhile fun c => isMailLiteralChar c.char
  let name := (before.take (before.length - front.length)).reverse
  if name.isEmpty || Cells.headChar? front == some '/' then none
  else
    let (front, protocol) :=
      match front with
      | c :: more =>
        let rest := Scan.many isAlphanum more
        let word := (more.take (more.length - rest.length)).reverse
        let lower := (Cells.chars word).map Char.toLower
        if c.char == ':' && (lower == "mailto".toList || lower == "xmpp".toList) then
          (rest, word ++ [c])
        else (front, [])
      | [] => ([], [])
    let slashes := (Cells.headChar? protocol).any fun c => c == 'x' || c == 'X'
    let (behind, dotted) := literalDomain slashes cells
    let domain := Cells.before cells behind
    let last ← domain.getLast?
    if dotted && isAlpha last.char then
      let address := protocol ++ name ++ [sign] ++ domain
      let text := Cells.raw address
      let first ← address.head?
      let url := if protocol.isEmpty then "mailto:".toList ++ text else text
      let span : Span := ⟨first.start, last.stop⟩
      some (front, link span span url text, behind)
    else none

/-- Cuts plain characters at the mail addresses in them. -/
def splitMails : Nat → List Cell → List Cell → List Piece
  | 0, before, cells => [.plain (before.reverse ++ cells)]
  | _, before, [] => if before.isEmpty then [] else [.plain before.reverse]
  | fuel + 1, before, c :: cells =>
    if c.char == '@' then
      match mailAround? before c cells with
      | some (front, part, behind) =>
        (if front.isEmpty then [] else [.plain front.reverse]) ++
          .part part :: splitMails fuel [] behind
      | none => splitMails fuel (c :: before) cells
    else splitMails fuel (c :: before) cells

end Tidymark.Markdown.Autolink
