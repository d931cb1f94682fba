import Tidymark.Dictionary

/-! # JSON values

The fields of an object are kept in the order of their names, each name once. -/
namespace Tidymark

/-- A number that is not an integer literal: `digits * 10 ^ exponent`, with a sign of its own so
that zero may be negative. -/
structure Decimal where
  negative : Bool
  digits : Nat
  exponent : Int
  deriving DecidableEq, Repr

inductive Json where
  | null
  | bool (b : Bool)
  | int (n : Int)
  | decimal (d : Decimal)
  | str (s : String)
  | arr (items : List Json)
  | obj (fields : List (String × Json))
  deriving Repr, Inhabited

namespace Json

/-- The object with these fields; of a repeated field the last value counts. -/
def object (fields : List (String × Json)) : Json :=
  obj (Dictionary.ofList fields)

def empty : Json := obj []

def ofNat (n : Nat) : Json := int n

def ofOption (f : α → Json) : Option α → Json
  | none => null
  | some a => f a

/-- A field of an object; nothing else has fields. -/
def get? (name : String) : Json → Option Json
  | obj fields => Dictionary.get? name fields
  | _ => none

def asBool? : Json → Option Bool
  | bool b => some b
  | _ => none

def asStr? : Json → Option String
  | str s => some s
  | _ => none

def asArr? : Json → Option (List Json)
  | arr items => some items
  | _ => none

/-- A natural number below 2 ^ 64. -/
def asNat? : Json → Option Nat
  | int n => if 0 ≤ n && n.toNat < Nat.pow 2 64 then some n.toNat else none
  | _ => none

end Json
end Tidymark
