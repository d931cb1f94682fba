import Mathlib.Data.List.SplitBy
import Tidymark.Proofs.Sorting

/-! # Repetitions

Neighbours that are level in a list make up a run. Where only the first of a run stays, a sorted list
is left without two elements that are level. -/
namespace Tidymark

section
variable {α β : Type} [BEq β] [LawfulBEq β] {f : α → β} {l run : List α} {a b : α}

/-- All members of a run of a class are of one class. -/
theorem eq_of_mem_splitBy (hrun : run ∈ l.splitBy fun a b => f a == f b) (ha : a ∈ run)
    (hb : b ∈ run) : f a = f b := by
  have : IsTrans α fun a b => (f a == f b) = true :=
    ⟨fun _ _ _ hab hbc => by rwa [eq_of_beq hab]⟩
  have hpairs := List.isChain_iff_pairwise.mp (List.isChain_of_mem_splitBy hrun)
  rcases eq_or_of_pairwise hpairs ha hb with rfl | hab | hba
  · rfl
  · exact eq_of_beq hab
  · exact (eq_of_beq hba).symm

/-- At the border of two runs the class changes. -/
theorem isChain_splitBy (f : α → β) (l : List α) :
    (l.splitBy fun a b => f a == f b).IsChain fun run next =>
      ∃ hrun hnext, f (run.getLast hrun) ≠ f (next.head hnext) :=
  (List.isChain_getLast_head_splitBy _ l).imp fun _ _ ⟨hrun, hnext, hturn⟩ =>
    ⟨hrun, hnext, beq_eq_false_iff_ne.mp hturn⟩

end

variable {α : Type} {same le : α → α → Bool}

theorem eraseRepsBy_loop (same : α → α → Bool) (a : α) (l done : List α) :
    List.eraseRepsBy.loop same a l done = done.reverse ++ List.eraseRepsBy.loop same a l [] := by
  induction l generalizing a done with
  | nil => simp [List.eraseRepsBy.loop]
  | cons b l ih =>
    simp only [List.eraseRepsBy.loop]
    split
    · exact ih a done
    · rw [ih b (a :: done), ih b [a]]
      simp

theorem eraseRepsBy_cons_cons (same : α → α → Bool) (a b : α) (l : List α) :
    (a :: b :: l).eraseRepsBy same =
      if same a b = true then (a :: l).eraseRepsBy same else a :: (b :: l).eraseRepsBy same := by
  simp only [List.eraseRepsBy, List.eraseRepsBy.loop]
  cases h : same a b with
  | true => rfl
  | false => exact eraseRepsBy_loop same b l [a]

theorem exists_eraseRepsBy_cons (same : α → α → Bool) (a : α) (l : List α) :
    ∃ rest, (a :: l).eraseRepsBy same = a :: rest ∧ rest.Sublist l := by
  induction l generalizing a with
  | nil => exact ⟨[], rfl, .slnil⟩
  | cons b l ih =>
    rw [eraseRepsBy_cons_cons]
    split
    · obtain ⟨rest, hrest, hsub⟩ := ih a
      exact ⟨rest, hrest, hsub.cons b⟩
    · obtain ⟨rest, hrest, hsub⟩ := ih b
      exact ⟨b :: rest, congrArg _ hrest, hsub.cons_cons b⟩

theorem eraseRepsBy_sublist (same : α → α → Bool) (l : List α) :
    (l.eraseRepsBy same).Sublist l := by
  cases l with
  | nil => exact .slnil
  | cons a l =>
    obtain ⟨rest, hrest, hsub⟩ := exists_eraseRepsBy_cons same a l
    rw [hrest]
    exact hsub.cons_cons a

/-- Of each element that goes, one that is level with it stays. -/
theorem exists_mem_eraseRepsBy (refl : ∀ a, same a a = true)
    (trans : ∀ a b c, same a b = true → same b c = true → same a c = true) {l : List α} {a : α}
    (h : a ∈ l) : ∃ kept ∈ l.eraseRepsBy same, same kept a = true := by
  cases l with
  | nil => cases h
  | cons first l =>
    induction l generalizing first a with
    | nil =>
      obtain rfl := List.mem_singleton.mp h
      exact ⟨a, List.mem_cons_self, refl a⟩
    | cons b l ih =>
      rw [eraseRepsBy_cons_cons]
      split
      · rename_i hlevel
        rcases List.mem_cons.mp h with rfl | h
        · exact ih a List.mem_cons_self
        rcases List.mem_cons.mp h with rfl | h
        · obtain ⟨kept, hkept, hfirst⟩ := ih first List.mem_cons_self
          exact ⟨kept, hkept, trans kept first a hfirst hlevel⟩
        · exact ih first (List.mem_cons_of_mem _ h)
      · rcases List.mem_cons.mp h with rfl | h
        · exact ⟨a, List.mem_cons_self, refl a⟩
        · obtain ⟨kept, hkept, hlevel⟩ := ih b h
          exact ⟨kept, List.mem_cons_of_mem _ hkept, hlevel⟩

/-- Neighbours that stay are in order and not level, so each element that stays is strictly behind
those before it. -/
theorem pairwise_eraseRepsBy (trans : ∀ a b c, le a b = true → le b c = true → le a c = true)
    (level : ∀ a b, le a b = true → le b a = true → same a b = true) {l : List α}
    (hsorted : l.Pairwise fun a b => le a b = true) :
    (l.eraseRepsBy same).Pairwise fun a b => le b a = false := by
  suffices ∀ l a, (a :: l).Pairwise (fun a b => le a b = true) →
      ((a :: l).eraseRepsBy same).Pairwise fun a b => le b a = false by
    cases l with
    | nil => exact .nil
    | cons a l => exact this l a hsorted
  intro l
  induction l with
  | nil =>
    intro a _
    exact List.pairwise_singleton _ a
  | cons b l ih =>
    intro a hsorted
    obtain ⟨hfirst, htail⟩ := List.pairwise_cons.mp hsorted
    rw [eraseRepsBy_cons_cons]
    split
    · exact ih a (hsorted.sublist ((List.sublist_cons_self b l).cons_cons a))
    · rename_i hdiffers
      refine List.pairwise_cons.mpr ⟨fun c hc => ?_, ih b htail⟩
      have hab := hfirst b (by simp)
      have hbc : le b c = true ∨ c = b := by
        rcases List.mem_cons.mp ((eraseRepsBy_sublist same (b :: l)).subset hc) with rfl | hc
        · exact .inr rfl
        · exact .inl ((List.pairwise_cons.mp htail).1 c hc)
      by_contra hback
      rw [Bool.not_eq_false] at hback
      rcases hbc with hbc | rfl
      · exact hdiffers (level a b hab (trans b c a hbc hback))
      · exact hdiffers (level a c hab hback)

end Tidymark
