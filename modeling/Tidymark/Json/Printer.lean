import Tidymark.Json.Binary64
import Tidymark.Text.Quoted

/-! # Writing JSON

On one line without blanks, or on several lines indented by two spaces. -/
namespace Tidymark.Json

def escapeChar (c : Char) : String :=
  if c == '"' then "\\\""
  else if c == '\\' then "\\\\"
  else if c == '\n' then "\\n"
  else if c == '\r' then "\\r"
  else if c == '\t' then "\\t"
  else if c.toNat = 8 then "\\b"
  else if c.toNat = 12 then "\\f"
  else if c.toNat < 32 then
    "\\u00" ++ (if c.toNat < 16 then "0" else "") ++ Text.hex c.toNat
  else c.toString

def quote (s : String) : String := "\"" ++ String.join (s.toList.map escapeChar) ++ "\""

mutual

/-- The value on one line. -/
def compact : Json → String
  | null => "null"
  | bool b => if b then "true" else "false"
  | int n => toString n
  | decimal d => Binary64.render d
  | str s => quote s
  | arr items => "[" ++ compactItems items ++ "]"
  | obj fields => "\x7b" ++ compactFields fields ++ "\x7d"

def compactItems : List Json → String
  | [] => ""
  | [item] => compact item
  | item :: items => compact item ++ "," ++ compactItems items

def compactFields : List (String × Json) → String
  | [] => ""
  | [(name, value)] => quote name ++ ":" ++ compact value
  | (name, value) :: fields =>
    quote name ++ ":" ++ compact value ++ "," ++ compactFields fields

end

def indentation (level : Nat) : String := "\n" ++ String.ofList (List.replicate (2 * level) ' ')

mutual

/-- The value on several lines, inside of `level` others. -/
def prettyAt (level : Nat) : Json → String
  | arr [] => "[]"
  | arr items => "[" ++ prettyItems (level + 1) items ++ indentation level ++ "]"
  | obj [] => "\x7b\x7d"
  | obj fields => "\x7b" ++ prettyFields (level + 1) fields ++ indentation level ++ "\x7d"
  | null => "null"
  | bool b => if b then "true" else "false"
  | int n => toString n
  | decimal d => Binary64.render d
  | str s => quote s

def prettyItems (level : Nat) : List Json → String
  | [] => ""
  | [item] => indentation level ++ prettyAt level item
  | item :: items => indentation level ++ prettyAt level item ++ "," ++ prettyItems level items

def prettyFields (level : Nat) : List (String × Json) → String
  | [] => ""
  | [(name, value)] => indentation level ++ quote name ++ ": " ++ prettyAt level value
  | (name, value) :: fields =>
    indentation level ++ quote name ++ ": " ++ prettyAt level value ++ "," ++
      prettyFields level fields

end

def pretty (value : Json) : String := prettyAt 0 value

end Tidymark.Json
