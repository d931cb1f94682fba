import Tidymark.Json.Token

/-! # Reading JSON

Commas between the parts of an array or an object may be missing, and one may follow the last
part. A text without any value is not an error. -/
namespace Tidymark.Json

/-- The value of a number literal. Integers below 2 ^ 64 are kept exactly, other numbers to the
precision of 64 bits, and what is too large for that stays text. -/
def ofLiteral (literal : List Char) : Json :=
  let text := str (String.ofList literal)
  let negative := literal.head? == some '-'
  let body := literal.dropWhile fun c => c == '-' || c == '+'
  let isHex := (body.drop 1).head?.any fun c => c == 'x' || c == 'X'
  if isHex then
    let n := Token.hexValue (body.drop 2)
    if n < Nat.pow 2 63 then int (if negative then -n else n) else text
  else
    let value (digits : List Char) : Nat :=
      digits.foldl (fun n c => 10 * n + (c.toNat - '0'.toNat)) 0
    let whole := body.takeWhile Char.isDigit
    let rest := body.drop whole.length
    let n := value whole
    if rest.isEmpty && !(negative && (n = 0 || Nat.pow 2 63 < n)) && n < Nat.pow 2 64 then
      int (if negative then -n else n)
    else
      let fraction := (rest.takeWhile fun c => c == '.' || c.isDigit).drop 1
      let power := (rest.dropWhile fun c => c == '.' || c.isDigit).drop 1
      let exponent : Int :=
        match power with
        | '-' :: digits => -(value digits : Int)
        | '+' :: digits => value digits
        | digits => value digits
      let digits := value (whole ++ fraction)
      let exponent := exponent - fraction.length
      let size : Int := Binary64.decimalLength digits + exponent
      let rounded :=
        if digits = 0 || size < -400 then some ⟨negative, 0, 0⟩
        else if 400 < size then none
        else Binary64.round? negative digits exponent
      match rounded with
      | some d => decimal d
      | none => text

def Token.name? : Token → Option String
  | str s | word s => some s
  | number literal => some (String.ofList literal)
  | _ => none

mutual

def readValue : Nat → List Token → Option (Json × List Token)
  | 0, _ => none
  | fuel + 1, tokens =>
    match tokens with
    | .null :: rest => some (null, rest)
    | .bool b :: rest => some (bool b, rest)
    | .str s :: rest => some (str s, rest)
    | .number literal :: rest => some (ofLiteral literal, rest)
    | .openBracket :: rest => (readItems fuel rest).map fun (items, rest) => (arr items, rest)
    | .openBrace :: rest => (readFields fuel rest).map fun (fields, rest) => (object fields, rest)
    | _ => none

def readItems : Nat → List Token → Option (List Json × List Token)
  | 0, _ => none
  | fuel + 1, tokens =>
    match tokens with
    | .closeBracket :: rest => some ([], rest)
    | _ => do
      let (item, rest) ← readValue fuel tokens
      let rest := match rest with
        | .comma :: more => more
        | _ => rest
      (readItems fuel rest).map fun (items, rest) => (item :: items, rest)

def readFields : Nat → List Token → Option (List (String × Json) × List Token)
  | 0, _ => none
  | fuel + 1, tokens =>
    match tokens with
    | .closeBrace :: rest => some ([], rest)
    | name :: .colon :: rest => do
      let name ← name.name?
      let (value, rest) ← readValue fuel rest
      let rest := match rest with
        | .comma :: more => more
        | _ => rest
      (readFields fuel rest).map fun (fields, rest) => ((name, value) :: fields, rest)
    | _ => none

end

/-- The value of a text; a text of white space and comments has none. -/
inductive Reading where
  | malformed
  | nothing
  | value (json : Json)

def read (text : List Char) : Reading :=
  match Token.readAll (text.length + 1) text with
  | none => .malformed
  | some [] => .nothing
  | some tokens =>
    match readValue (tokens.length + 1) tokens with
    | some (json, []) => .value json
    | _ => .malformed

end Tidymark.Json
