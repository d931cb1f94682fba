import Mathlib.Data.List.Basic

/-! # Lists in order

Sorting is stable, so it commutes with leaving out; and where no two members of a list are level in
its order, sorting forgets how the list was arranged. -/
namespace Tidymark

/-- Two members of a list that a relation orders are the same, or it relates them. -/
theorem eq_or_of_pairwise {α : Type} {R : α → α → Prop} {l : List α} {a b : α} (h : l.Pairwise R)
    (ha : a ∈ l) (hb : b ∈ l) : a = b ∨ R a b ∨ R b a := by
  induction h with
  | nil => cases ha
  | cons hfirst _ ih =>
    rw [List.mem_cons] at ha hb
    rcases ha with rfl | ha <;> rcases hb with rfl | hb
    · exact .inl rfl
    · exact .inr (.inl (hfirst b hb))
    · exact .inr (.inr (hfirst a ha))
    · exact ih ha hb

variable {α : Type} {le : α → α → Bool} {p : α → Bool} {l₁ l₂ k₁ k₂ : List α}

theorem takeWhile_append_of_forall (h₁ : ∀ b ∈ l₁, p b = true) (h₂ : ∀ b ∈ l₂, p b = false) :
    (l₁ ++ l₂).takeWhile p = l₁ := by
  rw [List.takeWhile_append_of_pos h₁]
  cases l₂ with
  | nil => simp
  | cons b l₂ => simp [h₂ b (by simp)]

/-- A list is cut in one place into elements of a class and others. -/
theorem eq_of_cut (h : l₁ ++ l₂ = k₁ ++ k₂) (hl₁ : ∀ b ∈ l₁, p b = true)
    (hl₂ : ∀ b ∈ l₂, p b = false) (hk₁ : ∀ b ∈ k₁, p b = true) (hk₂ : ∀ b ∈ k₂, p b = false) :
    l₁ = k₁ ∧ l₂ = k₂ := by
  have hfirst : l₁ = k₁ := by
    rw [← takeWhile_append_of_forall hl₁ hl₂, h, takeWhile_append_of_forall hk₁ hk₂]
  subst hfirst
  exact ⟨rfl, List.append_cancel_left h⟩

variable (trans : ∀ a b c, le a b = true → le b c = true → le a c = true)
variable (total : ∀ a b, (le a b || le b a) = true)
include trans total

/-- Sorting puts an element in front of the first one that it may stand before. -/
theorem exists_cut_of_mergeSort_cons (a : α) (l : List α) :
    ∃ l₁ l₂, (a :: l).mergeSort le = l₁ ++ a :: l₂ ∧ l.mergeSort le = l₁ ++ l₂ ∧
      (∀ b ∈ l₁, (!le a b) = true) ∧ ∀ b ∈ l₂, (!le a b) = false := by
  obtain ⟨l₁, l₂, hcons, hl, hbefore⟩ := List.mergeSort_cons trans total a l
  refine ⟨l₁, l₂, hcons, hl, hbefore, fun b hb => ?_⟩
  have hsorted := List.pairwise_mergeSort trans total (a :: l)
  rw [hcons, List.pairwise_append] at hsorted
  have hle : le a b = true := (List.pairwise_cons.mp hsorted.2.1).1 b hb
  rw [hle, Bool.not_true]

/-- Sorting is stable, so it commutes with leaving out. -/
theorem filter_mergeSort (p : α → Bool) (l : List α) :
    (l.mergeSort le).filter p = (l.filter p).mergeSort le := by
  induction l with
  | nil => simp
  | cons a l ih =>
    obtain ⟨l₁, l₂, hcons, hl, hbefore, hbehind⟩ := exists_cut_of_mergeSort_cons trans total a l
    rw [hl, List.filter_append] at ih
    rw [hcons, List.filter_append]
    by_cases ha : p a = true
    · obtain ⟨k₁, k₂, hcons', hk, hbefore', hbehind'⟩ :=
        exists_cut_of_mergeSort_cons trans total a (l.filter p)
      obtain ⟨hfirst, hsecond⟩ := eq_of_cut (ih.trans hk)
        (fun b hb => hbefore b (List.mem_of_mem_filter hb))
        (fun b hb => hbehind b (List.mem_of_mem_filter hb)) hbefore' hbehind'
      rw [List.filter_cons_of_pos ha, List.filter_cons_of_pos ha, hcons', hfirst, hsecond]
    · rw [List.filter_cons_of_neg ha, List.filter_cons_of_neg ha]
      exact ih

/-- If only equal members are level, sorting depends on nothing but the members. -/
theorem mergeSort_eq_of_perm {l l' : List α} (h : l.Perm l')
    (antisymm : ∀ a ∈ l, ∀ b ∈ l, le a b = true → le b a = true → a = b) :
    l.mergeSort le = l'.mergeSort le := by
  have hperm : (l.mergeSort le).Perm (l'.mergeSort le) :=
    (List.mergeSort_perm l le).trans (h.trans (List.mergeSort_perm l' le).symm)
  refine hperm.eq_of_pairwise (fun a b ha hb => ?_) (List.pairwise_mergeSort trans total l)
    (List.pairwise_mergeSort trans total l')
  exact antisymm a (List.mem_mergeSort.mp ha) b (h.mem_iff.mpr (List.mem_mergeSort.mp hb))

end Tidymark
