import Tidymark.Text.Whitespace

/-! # Text measured in bytes

A document is a list of characters. Offsets into it count the bytes of its UTF-8 form, so an
offset may lie inside a character; the functions that cut a text answer `none` there. -/
namespace Tidymark

abbrev Text := List Char

namespace Text

/-- Number of bytes in UTF-8. -/
def size : Text → Nat
  | [] => 0
  | c :: t => c.utf8Size + size t

/-- The text after its first `n` bytes, if `n` is an offset between characters. -/
def drop? : Nat → Text → Option Text
  | 0, t => some t
  | _ + 1, [] => none
  | n + 1, c :: t => if c.utf8Size ≤ n + 1 then drop? (n + 1 - c.utf8Size) t else none

/-- The first `n` bytes, if `n` is an offset between characters. -/
def take? : Nat → Text → Option Text
  | 0, _ => some []
  | _ + 1, [] => none
  | n + 1, c :: t =>
    if c.utf8Size ≤ n + 1 then (take? (n + 1 - c.utf8Size) t).map (c :: ·) else none

/-- The bytes from `start` to `stop`, if both are offsets between characters in that order. -/
def slice? (t : Text) (start stop : Nat) : Option Text :=
  if start ≤ stop then (drop? start t).bind (take? (stop - start)) else none

/-- Whether `n` is an offset between two characters or at an end. -/
def isBoundary (t : Text) (n : Nat) : Bool := (drop? n t).isSome

/-- The offset of the first `c`. -/
def find? (c : Char) : Text → Option Nat
  | [] => none
  | d :: t => if d == c then some 0 else (find? c t).map (· + d.utf8Size)

/-- The offset of the last `c`. -/
def rfind? (c : Char) : Text → Option Nat
  | [] => none
  | d :: t =>
    match rfind? c t with
    | some n => some (n + d.utf8Size)
    | none => if d == c then some 0 else none

/-- Whether `t` starts with `p`. -/
def startsWith (t p : Text) : Bool := p.isPrefixOf t

/-- Whether `t` ends with `p`. -/
def endsWith (t p : Text) : Bool := p.isSuffixOf t

@[simp] theorem size_nil : size [] = 0 := rfl

@[simp] theorem size_cons (c : Char) (t : Text) : size (c :: t) = c.utf8Size + size t := rfl

@[simp] theorem size_append (s t : Text) : size (s ++ t) = size s + size t := by
  induction s with
  | nil => simp
  | cons c s ih => simp [ih, Nat.add_assoc]

@[simp] theorem drop?_zero (t : Text) : drop? 0 t = some t := by simp [drop?]

@[simp] theorem take?_zero (t : Text) : take? 0 t = some [] := by simp [take?]

/-- Cutting at the end of a prefix gives back what follows it. -/
theorem drop?_size_append (s t : Text) : drop? (size s) (s ++ t) = some t := by
  induction s with
  | nil => simp
  | cons c s ih =>
    have hc : 0 < c.utf8Size := c.utf8Size_pos
    obtain ⟨n, hn⟩ : ∃ n, c.utf8Size + size s = n + 1 := ⟨c.utf8Size + size s - 1, by omega⟩
    simp only [List.cons_append, size_cons, hn, drop?]
    rw [if_pos (by omega), show n + 1 - c.utf8Size = size s by omega, ih]

theorem drop?_add_utf8Size (n : Nat) (c : Char) (t : Text) :
    drop? (n + c.utf8Size) (c :: t) = drop? n t := by
  have hc := c.utf8Size_pos
  obtain ⟨k, hk⟩ : ∃ k, n + c.utf8Size = k + 1 := ⟨n + c.utf8Size - 1, by omega⟩
  rw [hk, drop?, if_pos (by omega), show k + 1 - c.utf8Size = n by omega]

/-- What a cut leaves is shorter by the bytes in front of it. -/
theorem add_size_of_drop? {n : Nat} {t r : Text} (h : drop? n t = some r) :
    n + size r = size t := by
  induction t generalizing n with
  | nil =>
    cases n with
    | zero => simp_all
    | succ n => simp [drop?] at h
  | cons c t ih =>
    cases n with
    | zero => simp_all
    | succ n =>
      simp only [drop?] at h
      split at h
      · have hrest := ih h
        simp only [size_cons]
        omega
      · cases h

/-- At the first `c` the text goes on with it. -/
theorem exists_drop?_of_find? {c : Char} {t : Text} {n : Nat} (h : find? c t = some n) :
    ∃ rest, drop? n t = some (c :: rest) := by
  induction t generalizing n with
  | nil => cases h
  | cons d t ih =>
    simp only [find?] at h
    split at h
    · rename_i hd
      obtain rfl := beq_iff_eq.mp hd
      obtain rfl := Option.some.inj h
      exact ⟨t, drop?_zero _⟩
    · obtain ⟨k, hk, rfl⟩ := Option.map_eq_some_iff.mp h
      obtain ⟨rest, hrest⟩ := ih hk
      exact ⟨rest, (drop?_add_utf8Size k d t).trans hrest⟩

end Text
end Tidymark
