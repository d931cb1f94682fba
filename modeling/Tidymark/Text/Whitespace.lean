/-! # White space

The characters with the Unicode property `White_Space`, and trimming by them. -/
namespace Tidymark.Text

def isWhitespace (c : Char) : Bool :=
  let n := c.toNat
  (0x9 ≤ n && n ≤ 0xD) || n == 0x20 || n == 0x85 || n == 0xA0 || n == 0x1680 ||
  (0x2000 ≤ n && n ≤ 0x200A) || n == 0x2028 || n == 0x2029 || n == 0x202F || n == 0x205F ||
  n == 0x3000

def isSpaceOrTab (c : Char) : Bool := c == ' ' || c == '\t'

theorem isWhitespace_of_isSpaceOrTab {c : Char} (h : isSpaceOrTab c = true) :
    isWhitespace c = true := by
  simp only [isSpaceOrTab, Bool.or_eq_true, beq_iff_eq] at h
  rcases h with rfl | rfl <;> decide

/-- The text without the characters of class `p` at its end. -/
def trimEndBy (p : Char → Bool) (t : List Char) : List Char := (t.reverse.dropWhile p).reverse

/-- The text without the white space around it. -/
def trim (t : List Char) : List Char := trimEndBy isWhitespace (t.dropWhile isWhitespace)

/-- Trimming at the end splits a text: what is kept, then characters of the class only. -/
theorem exists_eq_trimEndBy_append (p : Char → Bool) (t : List Char) :
    ∃ s, t = trimEndBy p t ++ s ∧ ∀ c ∈ s, p c = true := by
  refine ⟨(t.reverse.takeWhile p).reverse, ?_, fun c hc => ?_⟩
  · rw [trimEndBy, ← List.reverse_append, List.takeWhile_append_dropWhile, List.reverse_reverse]
  · exact List.all_eq_true.1 List.all_takeWhile c (List.mem_reverse.1 hc)

end Tidymark.Text
