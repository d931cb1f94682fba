/-! # Globs

Patterns for paths. A path is matched byte by byte: `?` stands for one byte and `*` for any number
of them, never across a slash; `**` as a whole component stands for any number of components;
brackets hold a set of bytes and braces alternatives; a backslash makes the next character a plain
one. -/
namespace Tidymark

/-- What a path has to look like. -/
inductive Pattern where
  /-- Nothing. -/
  | done
  | byte (b : UInt8)
  /-- One byte other than a slash. -/
  | anyByte
  /-- One byte other than a slash in (or, negated, outside of) these ranges. -/
  | inRanges (negated : Bool) (ranges : List (UInt8 × UInt8))
  /-- Bytes other than slashes. -/
  | segment
  | everything
  /-- Nothing, or anything up to a slash. -/
  | leading
  /-- A slash and anything behind it. -/
  | trailing
  /-- A slash, or anything from a slash to a slash. -/
  | between
  | append (first second : Pattern)
  | either (first second : Pattern)
  deriving DecidableEq, Repr

namespace Pattern

def slash : UInt8 := 47

def inRange (b : UInt8) (range : UInt8 × UInt8) : Bool := range.1 ≤ b && b ≤ range.2

/-- What may be left of a path behind a first segment. -/
def afterSegment : List UInt8 → List (List UInt8)
  | [] => [[]]
  | b :: rest => (b :: rest) :: if b = slash then [] else afterSegment rest

def suffixes : List UInt8 → List (List UInt8)
  | [] => [[]]
  | b :: rest => (b :: rest) :: suffixes rest

/-- What is left behind one of the slashes. -/
def afterSlashes : List UInt8 → List (List UInt8)
  | [] => []
  | b :: rest => if b = slash then rest :: afterSlashes rest else afterSlashes rest

/-- What may be left of a path once the pattern has matched a part at its start. -/
def rests : Pattern → List UInt8 → List (List UInt8)
  | done, path => [path]
  | byte b, path =>
    match path with
    | c :: rest => if c = b then [rest] else []
    | [] => []
  | anyByte, path =>
    match path with
    | c :: rest => if c = slash then [] else [rest]
    | [] => []
  | inRanges negated ranges, path =>
    match path with
    | c :: rest => if c ≠ slash && ranges.any (inRange c) != negated then [rest] else []
    | [] => []
  | segment, path => afterSegment path
  | everything, path => suffixes path
  | leading, path => path :: afterSlashes path
  | trailing, path =>
    match path with
    | c :: rest => if c = slash then suffixes rest else []
    | [] => []
  | between, path =>
    match path with
    | c :: rest => if c = slash then rest :: afterSlashes rest else []
    | [] => []
  | append p q, path => ((p.rests path).flatMap q.rests).eraseDups
  | either p q, path => (p.rests path ++ q.rests path).eraseDups

def isMatch (p : Pattern) (path : List UInt8) : Bool := (p.rests path).contains []

end Pattern

/-- Why a glob cannot be read. -/
inductive GlobFault where
  | unclosedClass
  | invalidRange (first last : Char)
  | unclosedGroup
  | unopenedGroup
  | danglingEscape
  deriving DecidableEq, Repr

def GlobFault.message : GlobFault → String
  | unclosedClass => "unclosed character class; missing ']'"
  | invalidRange first last =>
    "invalid range; '" ++ first.toString ++ "' > '" ++ last.toString ++ "'"
  | unclosedGroup =>
    "unclosed alternate group; missing '\x7d' (maybe escape '\x7b' with '[\x7b]'?)"
  | unopenedGroup =>
    "unopened alternate group; missing '\x7b' (maybe escape '\x7d' with '[\x7d]'?)"
  | danglingEscape => "dangling '\\'"

structure GlobError where
  glob : String
  fault : GlobFault
  deriving DecidableEq, Repr

def GlobError.message (e : GlobError) : String :=
  "error parsing glob '" ++ e.glob ++ "': " ++ e.fault.message

namespace Glob

/-- An alternative that is being read, the latest part first, and the alternatives of its group
before it. -/
structure Level where
  before : List (List Pattern)
  parts : List Pattern

/-- The open groups from the inside out, below the outermost level. -/
structure Reading where
  level : Level
  outer : List Level

/-- The parts of a pattern, the latest first, in their order. -/
def join (parts : List Pattern) : Pattern := parts.foldl (fun rest p => .append p rest) .done

/-- Whether parts stand for no text at all. Such an alternative is dropped. -/
def isVoid (parts : List Pattern) : Bool := parts.all (· == .done)

/-- One of several alternatives. -/
def choose : List (List Pattern) → Pattern
  | [] => .done
  | [parts] => join parts
  | parts :: rest => .either (join parts) (choose rest)

namespace Reading

def start : Reading := ⟨⟨[], []⟩, []⟩

def push (r : Reading) (p : Pattern) : Reading :=
  { r with level := ⟨r.level.before, p :: r.level.parts⟩ }

def pushChar (r : Reading) (c : Char) : Reading :=
  (String.utf8EncodeChar c).foldl (fun r b => r.push (.byte b)) r

/-- Puts a part in the place of the slash before it, unless that belongs to a leading or trailing
run of components. -/
def pushComponents (r : Reading) (p : Pattern) : Reading :=
  match r.level.parts with
  | [] => r.push p
  | last :: others =>
    let p := if last == .leading || last == .trailing then last else p
    { r with level := ⟨r.level.before, p :: others⟩ }

def openGroup (r : Reading) : Reading := ⟨⟨[], []⟩, r.level :: r.outer⟩

def nextAlternative (r : Reading) : Reading :=
  match r.outer with
  | [] => r.push (.byte 44)
  | _ => { r with level := ⟨r.level.before ++ [r.level.parts], []⟩ }

def closeGroup? (r : Reading) : Option Reading :=
  match r.outer with
  | [] => none
  | level :: outer =>
    let alternatives := (r.level.before ++ [r.level.parts]).filter (!isVoid ·)
    some (Reading.push ⟨level, outer⟩ (choose alternatives))

def inGroup (r : Reading) : Bool := !r.outer.isEmpty

end Reading

/-- The bytes of a range of characters: all bytes of both, and what lies between the last byte of
the first and the first byte of the last. -/
def byteRanges (first last : Char) : List (UInt8 × UInt8) :=
  let a := String.utf8EncodeChar first
  let b := String.utf8EncodeChar last
  let single (c : UInt8) : UInt8 × UInt8 := (c, c)
  if first = last then a.map single
  else a.dropLast.map single ++ [(a.getLastD 0, b.headD 0)] ++ (b.drop 1).map single

/-- Reads a set up to its bracket. `ranges` are those before, the latest first; `first` holds at
the start, where a bracket is a member; `dash` holds behind a dash that may make a range. -/
def readClass (ranges : List (Char × Char)) (first dash : Bool) :
    List Char → Except GlobFault (List (Char × Char) × List Char)
  | [] => .error .unclosedClass
  | c :: rest =>
    if c = ']' && !first then .ok (if dash then ('-', '-') :: ranges else ranges, rest)
    else if c = '-' && !first && !dash then readClass ranges false true rest
    else match dash, ranges with
      | true, (low, _) :: others =>
        if c < low then .error (.invalidRange low c)
        else readClass ((low, c) :: others) false false rest
      | _, _ => readClass ((c, c) :: ranges) false false rest

/-- A set of bytes behind its opening bracket. -/
def readSet (chars : List Char) : Except GlobFault (Pattern × List Char) := do
  let (negated, body) :=
    match chars with
    | '!' :: rest => (true, rest)
    | '^' :: rest => (true, rest)
    | _ => (false, chars)
  let (ranges, rest) ← readClass [] true false body
  return (.inRanges negated (ranges.reverse.flatMap fun (a, b) => byteRanges a b), rest)

/-- Reads two stars with `before` in front of them and `rest` behind: the reading behind them, the
last character read and the rest. -/
def readStars (before : Option Char) (r : Reading) (rest : List Char) :
    Reading × Char × List Char :=
  let plain := ((r.push .segment).push .segment, '*', rest)
  if r.level.parts.isEmpty then
    match rest with
    | [] => (r.push .leading, '*', [])
    | '/' :: more => (r.push .leading, '/', more)
    | _ => plain
  else if before != some '/' && !(r.inGroup && (before == some ',' || before == some '{')) then
    plain
  else match rest with
    | [] => (r.pushComponents .trailing, '*', [])
    | '/' :: more => (r.pushComponents .between, '/', more)
    | c :: _ =>
      if r.inGroup && (c == ',' || c == '}') then (r.pushComponents .trailing, '*', rest)
      else plain

/-- Reads a glob; `before` is the character in front. -/
def readFrom : Nat → Option Char → Reading → List Char → Except GlobFault Reading
  | 0, _, r, _ => .ok r
  | _ + 1, _, r, [] => .ok r
  | fuel + 1, before, r, c :: rest =>
    match c with
    | '?' => readFrom fuel (some c) (r.push .anyByte) rest
    | '*' =>
      match rest with
      | '*' :: more =>
        let (r, last, rest) := readStars before r more
        readFrom fuel (some last) r rest
      | _ => readFrom fuel (some c) (r.push .segment) rest
    | '[' => do
      let (set, rest) ← readSet rest
      readFrom fuel (some ']') (r.push set) rest
    | '{' => readFrom fuel (some c) r.openGroup rest
    | '}' =>
      match r.closeGroup? with
      | some r => readFrom fuel (some c) r rest
      | none => .error .unopenedGroup
    | ',' => readFrom fuel (some c) r.nextAlternative rest
    | '\\' =>
      match rest with
      | [] => .error .danglingEscape
      | d :: more => readFrom fuel (some d) (r.pushChar d) more
    | _ => readFrom fuel (some c) (r.pushChar c) rest

/-- The pattern of a glob. -/
def parse (glob : String) : Except GlobError Pattern :=
  let chars := glob.toList
  match readFrom (chars.length + 1) none .start chars with
  | .error fault => .error ⟨glob, fault⟩
  | .ok r =>
    if r.inGroup then .error ⟨glob, .unclosedGroup⟩
    else .ok (if r.level.parts == [.leading] then .everything else join r.level.parts)

/-- The patterns of several globs. -/
def parseAll : List String → Except GlobError (List Pattern)
  | [] => .ok []
  | glob :: rest => do
    let pattern ← parse glob
    let others ← parseAll rest
    return pattern :: others

end Glob
end Tidymark
