import Mathlib.Data.List.DropRight
import Tidymark.Text

/-! # Trimming at the end

What is left of a text behind which characters of a class are dropped ends in none of them. -/
namespace Tidymark.Text

variable {q : Char → Bool} {t kept s : Text}

theorem not_of_mem_getLast?_trimEndBy (q : Char → Bool) (t : Text) :
    ∀ c ∈ (trimEndBy q t).getLast?, q c = false := by
  intro c hc
  have hne : trimEndBy q t ≠ [] := by
    intro hnil
    simp [hnil] at hc
  rw [List.getLast?_eq_some_getLast hne] at hc
  obtain rfl := Option.some.inj hc
  exact Bool.eq_false_iff.mpr (List.rdropWhile_last_not q t hne)

theorem trimEndBy_eq_self_iff : trimEndBy q t = t ↔ ∀ c ∈ t.getLast?, q c = false := by
  constructor
  · intro h
    rw [← h]
    exact not_of_mem_getLast?_trimEndBy q t
  · intro h
    refine List.rdropWhile_eq_self_iff.mpr fun hne => ?_
    simp [h _ (List.getLast?_eq_some_getLast hne)]

theorem trimEndBy_append_of_forall (t : Text) (hs : ∀ c ∈ s, q c = true) :
    trimEndBy q (t ++ s) = trimEndBy q t := by
  induction s using List.reverseRecOn with
  | nil => rw [List.append_nil]
  | append_singleton s c ih =>
    rw [← List.append_assoc]
    have hc : trimEndBy q (t ++ s ++ [c]) = trimEndBy q (t ++ s) :=
      List.rdropWhile_concat_pos q (t ++ s) c (hs c (by simp))
    rw [hc, ih fun d hd => hs d (by simp [hd])]

/-- What is dropped is the part of the class behind which nothing of the class stands. -/
theorem trimEndBy_append (hkept : ∀ c ∈ kept.getLast?, q c = false) (hs : ∀ c ∈ s, q c = true) :
    trimEndBy q (kept ++ s) = kept := by
  rw [trimEndBy_append_of_forall kept hs, trimEndBy_eq_self_iff.mpr hkept]

@[simp] theorem trimEndBy_trimEndBy (q : Char → Bool) (t : Text) :
    trimEndBy q (trimEndBy q t) = trimEndBy q t :=
  trimEndBy_eq_self_iff.mpr (not_of_mem_getLast?_trimEndBy q t)

end Tidymark.Text
