import Tidymark.Text
import Tidymark.Markdown.EntityTable

/-! # Character references

A reference names a character, between `&` and `;`, or gives its code point. -/
namespace Tidymark.Markdown.Entity

def digitValue (c : Char) : Nat :=
  if c.isDigit then c.toNat - '0'.toNat else c.toLower.toNat - 'a'.toNat + 10

/-- Reads hexadecimal numbers joined by `+` up to a semicolon. -/
def readCodes (code : Nat) : List Char → List Nat
  | [] => [code]
  | c :: t =>
    if c == ';' then [code]
    else if c == '+' then code :: readCodes 0 t
    else readCodes (16 * code + digitValue c) t

/-- Searches a row of the table for a name; entries start at its start and behind semicolons. -/
def findIn (name : List Char) (atEntry : Bool) : List Char → Option (List Nat)
  | [] => none
  | c :: t =>
    if atEntry && (name ++ [' ']).isPrefixOf (c :: t) then
      some (readCodes 0 ((c :: t).drop (name.length + 1)))
    else findIn name (c == ';') t

/-- The text that a name stands for. -/
def named? (name : List Char) : Option Text :=
  (entityRows.findSome? fun row => findIn name true row.toList).map (·.map Char.ofNat)

/-- Whether a reference to the code point gives the replacement character instead: control
characters other than blanks, surrogates, noncharacters, and numbers beyond the last one. -/
def isReplaced (n : Nat) : Bool :=
  n ≤ 8 || n == 0xB || (0xE ≤ n && n ≤ 0x1F) || (0x7F ≤ n && n ≤ 0x9F) ||
  (0xD800 ≤ n && n ≤ 0xDFFF) || (0xFDD0 ≤ n && n ≤ 0xFDEF) || 0xFFFE ≤ n % 0x10000 ||
  0x10FFFF < n

def ofCode (n : Nat) : Text := [if isReplaced n then '\uFFFD' else Char.ofNat n]

def isHexDigit (c : Char) : Bool :=
  c.isDigit || ('a' ≤ c && c ≤ 'f') || ('A' ≤ c && c ≤ 'F')

def number (base : Nat) (digits : List Char) : Nat :=
  digits.foldl (fun n c => base * n + digitValue c) 0

/-- The value between `&` and `;`, if it is a reference. Names have at most 31 characters, decimal
numbers seven digits and hexadecimal numbers six. -/
def value? : List Char → Option Text
  | '#' :: 'x' :: digits | '#' :: 'X' :: digits =>
    if 1 ≤ digits.length && digits.length ≤ 6 && digits.all isHexDigit then
      some (ofCode (number 16 digits))
    else none
  | '#' :: digits =>
    if 1 ≤ digits.length && digits.length ≤ 7 && digits.all Char.isDigit then
      some (ofCode (number 10 digits))
    else none
  | name =>
    if 1 ≤ name.length && name.length ≤ 31 && name.all Char.isAlphanum then named? name else none

/-- How many characters a reference may take behind its `&`. -/
def reach : Nat := 32

/-- The reference at the start of a text, behind its `&`: what it stands for and how many
characters it takes, its semicolon included. -/
def read? (t : List Char) : Option (Text × Nat) :=
  let body := t.takeWhile (· != ';')
  if body.length < t.length then (value? body).map (·, body.length + 1) else none

end Tidymark.Markdown.Entity
