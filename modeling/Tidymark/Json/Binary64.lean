import Tidymark.Json

/-! # Numbers of 64 bits

Numbers with a fraction or an exponent are kept to the precision of a binary floating-point number
of 64 bits. Such a number is written with the fewest digits that read back as the same number. -/
namespace Tidymark.Binary64

/-- A number `mantissa * 2 ^ exponent`. -/
structure Finite where
  mantissa : Nat
  exponent : Int
  deriving DecidableEq, Repr

/-- The nearest integer to a quotient, and the even one of two that are equally near. -/
def roundDiv (num den : Nat) : Nat :=
  let q := num / den
  let r := num % den
  if 2 * r < den || (2 * r == den && q % 2 == 0) then q else q + 1

def bitLength (n : Nat) : Nat := if n = 0 then 0 else n.log2 + 1

/-- The smallest exponent of a number of 64 bits. -/
def minExponent : Int := -1074

/-- The nearest number to `num / den`, if it is not too large. -/
def nearest? (num den : Nat) : Option Finite :=
  if num = 0 then some ⟨0, minExponent⟩
  else
    let guess : Int := (bitLength num : Int) - bitLength den - 53
    let scaled (e : Int) : Nat × Nat :=
      if 0 ≤ e then (num, den * Nat.pow 2 e.toNat) else (num * Nat.pow 2 (-e).toNat, den)
    let (n, d) := scaled guess
    let e := max minExponent (if n / d < Nat.pow 2 53 then guess else guess + 1)
    let e := if Nat.pow 2 52 ≤ (scaled e).1 / (scaled e).2 then e else max minExponent (e - 1)
    let m := roundDiv (scaled e).1 (scaled e).2
    let (m, e) := if m = Nat.pow 2 53 then (Nat.pow 2 52, e + 1) else (m, e)
    if 971 < e then none else some ⟨m, e⟩

/-- The number that `digits * 10 ^ exponent` stands for. -/
def ofDecimal? (digits : Nat) (exponent : Int) : Option Finite :=
  if 0 ≤ exponent then nearest? (digits * Nat.pow 10 exponent.toNat) 1
  else nearest? digits (Nat.pow 10 (-exponent).toNat)

/-- The value as a fraction. -/
def Finite.fraction (x : Finite) : Nat × Nat :=
  if 0 ≤ x.exponent then (x.mantissa * Nat.pow 2 x.exponent.toNat, 1)
  else (x.mantissa, Nat.pow 2 (-x.exponent).toNat)

/-- The nearest decimal with `places` digits behind the point, or before it when negative. -/
def Finite.toPlaces (x : Finite) (places : Int) : Nat :=
  let (num, den) := x.fraction
  if 0 ≤ places then roundDiv (num * Nat.pow 10 places.toNat) den
  else roundDiv num (den * Nat.pow 10 (-places).toNat)

/-- Tries ever more digits until the decimal reads back. -/
def Finite.search (x : Finite) : Nat → Int → Nat × Int
  | 0, places => (x.toPlaces places, -places)
  | fuel + 1, places =>
    let digits := x.toPlaces places
    if ofDecimal? digits (-places) == some x then (digits, -places) else x.search fuel (places + 1)

/-- Drops zeros at the end of the digits. -/
def dropZeros : Nat → Nat → Int → Nat × Int
  | 0, digits, exponent => (digits, exponent)
  | fuel + 1, digits, exponent =>
    if digits ≠ 0 && digits % 10 = 0 then dropZeros fuel (digits / 10) (exponent + 1)
    else (digits, exponent)

/-- The number of decimal digits. -/
def decimalLength (n : Nat) : Nat := (Nat.toDigits 10 n).length

/-- The decimal with the fewest digits that stands for the number. -/
def Finite.shortest (x : Finite) : Nat × Int :=
  if x.mantissa = 0 then (0, 0)
  else
    let (num, den) := x.fraction
    let places : Int :=
      if den ≤ num then 1 - (decimalLength (num / den) : Int) else decimalLength (den / num) - 1
    let (digits, exponent) := x.search 18 places
    dropZeros 20 digits exponent

/-- Rounds a decimal to 64 bits; nothing if it is too large. -/
def round? (negative : Bool) (digits : Nat) (exponent : Int) : Option Decimal :=
  (ofDecimal? digits exponent).map fun x =>
    let (digits, exponent) := x.shortest
    ⟨negative, digits, exponent⟩

/-- Writes a decimal: with a point when its first digit stands for at least 0.00001 and its last
place is below 10 ^ 16, and with an exponent otherwise. -/
def render (d : Decimal) : String :=
  let digits := toString d.digits
  let length : Int := digits.length
  let point := length + d.exponent
  let zeros (n : Int) : String := String.ofList (List.replicate n.toNat '0')
  let body :=
    if d.digits = 0 then "0.0"
    else if 0 ≤ d.exponent && point ≤ 16 then digits ++ zeros d.exponent ++ ".0"
    else if 0 < point && point ≤ 16 then
      String.ofList (digits.toList.take point.toNat) ++ "." ++
        String.ofList (digits.toList.drop point.toNat)
    else if -5 < point && point ≤ 0 then "0." ++ zeros (-point) ++ digits
    else if length = 1 then digits ++ "e" ++ toString (point - 1)
    else
      String.ofList (digits.toList.take 1) ++ "." ++ String.ofList (digits.toList.drop 1) ++ "e" ++
        toString (point - 1)
  (if d.negative then "-" else "") ++ body

end Tidymark.Binary64
