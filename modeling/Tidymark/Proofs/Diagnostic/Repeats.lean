import Mathlib.Data.List.Destutter
import Mathlib.Data.Prod.Lex
import Tidymark.Proofs.Diagnostic.Order

/-! # What a report lists twice

A report is in the order of spans, rules and messages, holds all that was found, and arranging it
again changes nothing. Diagnostics may be level in this order and differ all the same, in their
severity or their edits. Sorting leaves those as they were found, and only equal neighbours are made
one: a diagnostic is listed twice if and only if one that is level with it was found between two
copies of it. -/
namespace Tidymark

section
variable {α : Type} {l m : List α} {a : α}

theorem nodup_iff_of_isChain (h : l.IsChain (· ≠ ·)) :
    l.Nodup ↔ ∀ a b, [a, b, a].Sublist l → a = b := by
  constructor
  · intro hnodup a b hsub
    simpa using hnodup.sublist hsub
  · intro hback
    induction l with
    | nil => exact List.nodup_nil
    | cons c l ih =>
      have hnodup : l.Nodup := ih h.of_cons fun a b hsub => hback a b (hsub.cons c)
      refine List.nodup_cons.mpr ⟨fun hc => ?_, hnodup⟩
      cases l with
      | nil => cases hc
      | cons b l =>
        have hne : c ≠ b := (List.isChain_cons_cons.mp h).1
        have hc : c ∈ l := List.mem_of_ne_of_mem hne hc
        exact hne (hback c b (((List.singleton_sublist.mpr hc).cons_cons b).cons_cons c))

variable [DecidableEq α]

theorem eraseReps_eq_destutter (l : List α) : l.eraseReps = l.destutter (· ≠ ·) := by
  cases l with
  | nil => rfl
  | cons a l =>
    induction l generalizing a with
    | nil => rfl
    | cons b l ih =>
      rw [eraseReps_cons_cons, List.destutter_cons_cons]
      by_cases hsame : a = b
      · subst hsame
        rw [if_pos rfl, if_neg (fun h => h rfl), ih, List.destutter_cons']
      · rw [if_neg hsame, if_pos hsame, ih, List.destutter_cons']

theorem isChain_eraseReps (l : List α) : l.eraseReps.IsChain (· ≠ ·) := by
  rw [eraseReps_eq_destutter]
  exact List.isChain_destutter _ l

theorem eraseReps_eraseReps (l : List α) : l.eraseReps.eraseReps = l.eraseReps := by
  rw [eraseReps_eq_destutter l.eraseReps]
  exact List.destutter_of_isChain _ _ (isChain_eraseReps l)

/-- A selection in which no two neighbours are equal can still be made when repetitions are left
out. -/
theorem sublist_eraseReps (hm : m.IsChain (· ≠ ·)) (h : m.Sublist l) : m.Sublist l.eraseReps := by
  cases l with
  | nil => exact h
  | cons a l =>
    induction l generalizing a m with
    | nil => exact h
    | cons b l ih =>
      rw [eraseReps_cons_cons]
      by_cases hsame : a = b
      · subst hsame
        rw [if_pos rfl]
        refine ih hm a ?_
        cases h with
        | cons _ h => exact h
        | @cons_cons m _ _ h =>
          cases h with
          | cons _ h => exact h.cons_cons a
          | cons_cons _ h => exact absurd rfl (List.isChain_cons_cons.mp hm).1
      · rw [if_neg hsame]
        cases h with
        | cons _ h => exact (ih hm b h).cons a
        | cons_cons _ h => exact (ih hm.of_cons b h).cons_cons a

theorem mem_eraseReps : a ∈ l.eraseReps ↔ a ∈ l := by
  refine ⟨fun h => (eraseRepsBy_sublist _ l).subset h, fun h => ?_⟩
  rw [← List.singleton_sublist] at h ⊢
  exact sublist_eraseReps (List.isChain_singleton a) h

/-- Repetitions among neighbours are the only ones if nothing comes back behind something else. -/
theorem nodup_eraseReps_iff :
    l.eraseReps.Nodup ↔ ∀ a b, [a, b, a].Sublist l → a = b := by
  rw [nodup_iff_of_isChain (isChain_eraseReps l)]
  constructor
  · intro h a b hsub
    by_contra hne
    have hchain : [a, b, a].IsChain (· ≠ ·) := by simp [hne, Ne.symm hne]
    exact hne (h a b (sublist_eraseReps hchain hsub))
  · exact fun h a b hsub => h a b (hsub.trans (eraseRepsBy_sublist _ l))

end

namespace Diagnostic

variable {d e : Diagnostic} {found picked : List Diagnostic}

/-- What the place of a diagnostic in a report depends on. -/
def sortKey (d : Diagnostic) : Nat ×ₗ Nat ×ₗ String ×ₗ String :=
  toLex (d.span.start, toLex (d.span.stop, toLex (d.ruleId, d.message)))

theorem atMost_iff_sortKey_le : d.atMost e = true ↔ d.sortKey ≤ e.sortKey := by
  have hspan : d.span = e.span ↔ d.span.start = e.span.start ∧ d.span.stop = e.span.stop := by
    cases d.span
    cases e.span
    simp
  rw [atMost_iff, Span.before_iff, hspan]
  simp only [sortKey, Prod.Lex.toLex_le_toLex]
  tauto

theorem pairwise_sorted (found : List Diagnostic) :
    (found.mergeSort atMost).Pairwise fun d e => d.sortKey ≤ e.sortKey :=
  (List.pairwise_mergeSort atMost_trans atMost_total found).imp atMost_iff_sortKey_le.mp

/-- Diagnostics that are level stay as they were found. -/
theorem sublist_sorted_iff (h : ∀ d ∈ picked, ∀ e ∈ picked, d.sortKey = e.sortKey) :
    picked.Sublist (found.mergeSort atMost) ↔ picked.Sublist found := by
  cases picked with
  | nil => simp
  | cons first picked =>
    let level (d : Diagnostic) : Bool := d.sortKey = first.sortKey
    have hpicked : (first :: picked).filter level = first :: picked :=
      List.filter_eq_self.mpr fun d hd => decide_eq_true (h d hd first List.mem_cons_self)
    have hfiltered : (found.mergeSort atMost).filter level = found.filter level := by
      rw [filter_mergeSort atMost_trans atMost_total]
      refine List.mergeSort_of_pairwise (List.pairwise_of_forall_mem_list fun d hd e he => ?_)
      have hd : d.sortKey = first.sortKey := of_decide_eq_true (List.mem_filter.mp hd).2
      have he : e.sortKey = first.sortKey := of_decide_eq_true (List.mem_filter.mp he).2
      exact atMost_iff_sortKey_le.mpr (hd.trans he.symm).le
    have hlevel (l : List Diagnostic) :
        (first :: picked).Sublist (l.filter level) ↔ (first :: picked).Sublist l :=
      ⟨fun hsub => hsub.trans List.filter_sublist, fun hsub => hpicked ▸ hsub.filter level⟩
    rw [← hlevel, hfiltered, hlevel]

/-- What comes back in the order of reports comes back behind something that is level with it. -/
theorem comesBack_sorted_iff : [d, e, d].Sublist (found.mergeSort atMost) ↔
    d.sortKey = e.sortKey ∧ [d, e, d].Sublist found := by
  constructor
  · intro hsub
    have hkeys := (pairwise_sorted found).sublist hsub
    have hlevel : d.sortKey = e.sortKey := by
      simp only [List.pairwise_cons, List.mem_cons] at hkeys
      exact le_antisymm (hkeys.1 e (.inl rfl)) (hkeys.2.1 d (.inl rfl))
    exact ⟨hlevel, (sublist_sorted_iff (by simp [hlevel])).mp hsub⟩
  · rintro ⟨hlevel, hsub⟩
    exact (sublist_sorted_iff (by simp [hlevel])).mpr hsub

theorem pairwise_arrange (found : List Diagnostic) :
    (arrange found).Pairwise fun d e => d.sortKey ≤ e.sortKey :=
  (pairwise_sorted found).sublist (eraseRepsBy_sublist _ _)

theorem mem_arrange_iff : d ∈ arrange found ↔ d ∈ found := by
  rw [arrange, mem_eraseReps, List.mem_mergeSort]

theorem arrange_arrange (found : List Diagnostic) : arrange (arrange found) = arrange found := by
  have hsorted : (arrange found).mergeSort atMost = arrange found :=
    List.mergeSort_of_pairwise ((pairwise_arrange found).imp atMost_iff_sortKey_le.mpr)
  conv_lhs => rw [arrange, hsorted, arrange, eraseReps_eraseReps]
  rfl

theorem nodup_arrange_iff : (arrange found).Nodup ↔
    ∀ d e, d.sortKey = e.sortKey → [d, e, d].Sublist found → d = e := by
  rw [arrange, nodup_eraseReps_iff]
  simp only [comesBack_sorted_iff, and_imp]

/-- A report is in order and complete, and arranging it again changes nothing. It lists nothing
twice if and only if nothing was found again behind something else that is level with it. -/
theorem arrange_complete_and_nodup_iff (found : List Diagnostic) :
    (arrange found).Pairwise (fun d e => d.sortKey ≤ e.sortKey) ∧
      (∀ d, d ∈ arrange found ↔ d ∈ found) ∧ arrange (arrange found) = arrange found ∧
      ((arrange found).Nodup ↔
        ∀ d e, d.sortKey = e.sortKey → [d, e, d].Sublist found → d = e) :=
  ⟨pairwise_arrange found, fun _ => mem_arrange_iff, arrange_arrange found, nodup_arrange_iff⟩

/-- An error is found, then the same as a warning, and then the error again. -/
theorem arrange_between_copies :
    let error : Diagnostic :=
      ⟨"MD009", "n", ⟨0, 1⟩, ⟨⟨1, 1⟩, ⟨1, 2⟩⟩, "m", .error, none, []⟩
    let warning := { error with severity := .warning }
    arrange [error, warning, error] = [error, warning, error] ∧
      ¬ (arrange [error, warning, error]).Nodup := by
  intro error warning
  have harrange : arrange [error, warning, error] = [error, warning, error] := by
    rw [arrange, List.mergeSort_of_pairwise (by decide)]
    decide
  exact ⟨harrange, by simp [harrange]⟩

end Diagnostic
end Tidymark
