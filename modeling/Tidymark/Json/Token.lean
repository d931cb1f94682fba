import Tidymark.Json.Binary64
import Tidymark.Text.Whitespace

/-! # JSON tokens

The words of JSON as people write it by hand: comments count as white space, strings may stand in
single quotes and hold line breaks, numbers may have a plus sign or be hexadecimal, and names need
no quotes. -/
namespace Tidymark.Json

inductive Token where
  | openBrace | closeBrace | openBracket | closeBracket | comma | colon
  | null
  | bool (b : Bool)
  | str (s : String)
  | number (literal : List Char)
  /-- A name without quotes. -/
  | word (s : String)
  deriving DecidableEq, Repr

namespace Token

/-- A character of a name without quotes. -/
def isWordChar (c : Char) : Bool := c.isAlphanum || c == '-' || c == '_'

def isHexDigit (c : Char) : Bool :=
  c.isDigit || ('a' ≤ c && c ≤ 'f') || ('A' ≤ c && c ≤ 'F')

def hexDigit (c : Char) : Nat :=
  if c.isDigit then c.toNat - '0'.toNat else c.toLower.toNat - 'a'.toNat + 10

def hexValue (digits : List Char) : Nat := digits.foldl (fun n c => 16 * n + hexDigit c) 0

/-- The code unit of four hexadecimal digits. -/
def codeUnit? (t : List Char) : Option (Nat × List Char) :=
  let digits := t.take 4
  if digits.length = 4 && digits.all isHexDigit then some (hexValue digits, t.drop 4) else none

/-- The character of an escape behind `\u`; characters beyond the first plane take two escapes. -/
def unicodeEscape? (t : List Char) : Option (Char × List Char) := do
  let (high, rest) ← codeUnit? t
  if 0xD800 ≤ high && high ≤ 0xDBFF then
    match rest with
    | '\\' :: 'u' :: more =>
      let (low, rest) ← codeUnit? more
      if 0xDC00 ≤ low && low ≤ 0xDFFF then
        some (Char.ofNat (0x10000 + (high - 0xD800) * 0x400 + (low - 0xDC00)), rest)
      else none
    | _ => none
  else if 0xDC00 ≤ high && high ≤ 0xDFFF then none
  else some (Char.ofNat high, rest)

/-- The rest of a string up to its closing quote. Only this quote may be escaped. -/
def string? (quote : Char) : Nat → List Char → List Char → Option (String × List Char)
  | 0, _, _ => none
  | _, _, [] => none
  | fuel + 1, done, c :: t =>
    if c == quote then some (String.ofList done.reverse, t)
    else if c != '\\' then string? quote fuel (c :: done) t
    else match t with
      | [] => none
      | e :: rest =>
        if e == quote || e == '\\' || e == '/' then string? quote fuel (e :: done) rest
        else match e with
          | 'b' => string? quote fuel ('\x08' :: done) rest
          | 'f' => string? quote fuel ('\x0c' :: done) rest
          | 'n' => string? quote fuel ('\n' :: done) rest
          | 'r' => string? quote fuel ('\r' :: done) rest
          | 't' => string? quote fuel ('\t' :: done) rest
          | 'u' => do
            let (c, rest) ← unicodeEscape? rest
            string? quote fuel (c :: done) rest
          | _ => none

/-- Splits digits off; there must be one. -/
def digits? (t : List Char) : Option (List Char × List Char) :=
  let digits := t.takeWhile Char.isDigit
  if digits.isEmpty then none else some (digits, t.drop digits.length)

/-- A fraction behind a decimal point, if there is a point. -/
def fraction? (t : List Char) : Option (List Char × List Char) :=
  match t with
  | '.' :: rest => (digits? rest).map fun (digits, rest) => ('.' :: digits, rest)
  | _ => some ([], t)

def exponent? (t : List Char) : Option (List Char × List Char) :=
  match t with
  | e :: rest =>
    if e == 'e' || e == 'E' then
      match rest with
      | sign :: more =>
        if sign == '-' || sign == '+' then
          (digits? more).map fun (digits, rest) => (e :: sign :: digits, rest)
        else (digits? rest).map fun (digits, rest) => (e :: digits, rest)
      | [] => none
    else some ([], t)
  | [] => some ([], t)

/-- A number: hexadecimal, or decimal without leading zeros. -/
def number? (t : List Char) : Option (List Char × List Char) := do
  let (sign, t) :=
    match t with
    | '-' :: rest => (['-'], rest)
    | '+' :: rest => (['+'], rest)
    | _ => ([], t)
  let isHex := match t with
    | '0' :: x :: _ => x == 'x' || x == 'X'
    | _ => false
  if isHex then
    let digits := (t.drop 2).takeWhile isHexDigit
    if digits.isEmpty then none
    else some (sign ++ t.take 2 ++ digits, t.drop (2 + digits.length))
  else
    let (whole, t) ←
      match t with
      | '0' :: rest => some (['0'], rest)
      | _ => digits? t
    let (fraction, t) ← fraction? t
    let (exponent, t) ← exponent? t
    some (sign ++ whole ++ fraction ++ exponent, t)

/-- What follows a comment in slashes and asterisks. -/
def behindBlock : List Char → Option (List Char)
  | '*' :: '/' :: t => some t
  | _ :: t => behindBlock t
  | [] => none

/-- A keyword that no letter or digit follows. -/
def keyword? (t : List Char) : Option (Token × List Char) :=
  [("true".toList, bool true), ("false".toList, bool false), ("null".toList, null)].findSome?
    fun (name, token) =>
      let rest := t.drop name.length
      if name.isPrefixOf t && !(rest.head?.any Char.isAlphanum) then some (token, rest) else none

/-- A name; only white space or a colon may follow it. -/
def word? (t : List Char) : Option (Token × List Char) :=
  let name := t.takeWhile isWordChar
  let rest := t.drop name.length
  if !name.isEmpty && rest.head?.all (fun c => Text.isWhitespace c || c == ':') then
    some (word (String.ofList name), rest)
  else none

/-- The token at the start of a text, and what follows. -/
def read? (c : Char) (t : List Char) : Option (Token × List Char) :=
  match c with
  | '{' => some (openBrace, t)
  | '}' => some (closeBrace, t)
  | '[' => some (openBracket, t)
  | ']' => some (closeBracket, t)
  | ',' => some (comma, t)
  | ':' => some (colon, t)
  | '"' | '\'' => (string? c (t.length + 1) [] t).map fun (s, rest) => (str s, rest)
  | _ =>
    if c.isDigit || c == '-' || c == '+' then
      (number? (c :: t)).map fun (literal, rest) => (number literal, rest)
    else (keyword? (c :: t)).or (word? (c :: t))

/-- All tokens of a text. -/
def readAll : Nat → List Char → Option (List Token)
  | 0, _ => none
  | _, [] => some []
  | fuel + 1, c :: t =>
    if Text.isWhitespace c then readAll fuel t
    else match c, t with
      | '/', '/' :: rest => readAll fuel (rest.dropWhile (· != '\n'))
      | '/', '*' :: rest => (behindBlock rest).bind (readAll fuel)
      | _, _ => do
        let (token, rest) ← read? c t
        (readAll fuel rest).map (token :: ·)

end Token
end Tidymark.Json
