import Mathlib.Data.String.Basic
import Tidymark.Diagnostic
import Tidymark.Proofs.Repetition
import Tidymark.Proofs.Sorting

/-! # The order of reports

Diagnostics are sorted by a total preorder, and sorting is stable. Diagnostics that are level in
this order come from one rule. So it makes no difference whether the diagnostics of some rules are
left out before a report is arranged or behind it. -/
namespace Tidymark

section
variable {α : Type} {le : α → α → Bool} {p : α → Bool} {a : α} {l : List α}

variable [DecidableEq α]

theorem eraseReps_cons_cons (a b : α) (l : List α) :
    (a :: b :: l).eraseReps = if a = b then (b :: l).eraseReps else a :: (b :: l).eraseReps := by
  rw [List.eraseReps, eraseRepsBy_cons_cons]
  by_cases h : a = b
  · subst h
    simp [List.eraseReps]
  · simp [List.eraseReps, h]

theorem eraseReps_cons_of_head?_ne (h : l.head? ≠ some a) :
    (a :: l).eraseReps = a :: l.eraseReps := by
  cases l with
  | nil => rfl
  | cons b l =>
    have hne : a ≠ b := fun hsame => h (congrArg some hsame.symm)
    rw [eraseReps_cons_cons, if_neg hne]

/-- In a sorted list nothing that is kept loses its neighbour to what is left out. -/
theorem filter_eraseReps (hsorted : l.Pairwise fun a b => le a b = true)
    (hlevel : ∀ a b, le a b = true → le b a = true → p a = p b) :
    l.eraseReps.filter p = (l.filter p).eraseReps := by
  induction l with
  | nil => rfl
  | cons a l ih =>
    cases l with
    | nil => by_cases ha : p a = true <;> simp [List.eraseReps, List.eraseRepsBy,
        List.eraseRepsBy.loop, ha]
    | cons b l =>
      obtain ⟨hhead, htail⟩ := List.pairwise_cons.mp hsorted
      have ih := ih htail
      rw [eraseReps_cons_cons]
      by_cases hsame : a = b
      · subst hsame
        rw [if_pos rfl, ih]
        by_cases ha : p a = true
        · simp only [List.filter_cons_of_pos ha, eraseReps_cons_cons, if_true]
        · simp only [List.filter_cons_of_neg ha]
      · rw [if_neg hsame]
        by_cases ha : p a = true
        · rw [List.filter_cons_of_pos ha, List.filter_cons_of_pos ha, ih]
          refine (eraseReps_cons_of_head?_ne fun hfirst => ?_).symm
          by_cases hb : p b = true
          · rw [List.filter_cons_of_pos hb] at hfirst
            exact hsame (Option.some.inj hfirst).symm
          · rw [List.filter_cons_of_neg hb] at hfirst
            have hmem : a ∈ l := List.mem_of_mem_filter (List.mem_of_head? hfirst)
            have hback : le b a = true := (List.pairwise_cons.mp htail).1 a hmem
            exact hb (hlevel a b (hhead b (by simp)) hback ▸ ha)
        · rw [List.filter_cons_of_neg ha, List.filter_cons_of_neg ha, ih]

end

namespace Span

variable {s t u : Span}

theorem before_trans (h : s.before t = true) (h' : t.before u = true) : s.before u = true := by
  rw [before_iff] at *
  omega

theorem not_before_self : ¬ s.before s = true := by
  rw [before_iff]
  omega

theorem before_trichotomous (s t : Span) : s.before t = true ∨ s = t ∨ t.before s = true := by
  have hext : s.start = t.start → s.stop = t.stop → s = t := fun hstart hstop => by
    cases s
    cases t
    simp_all
  rw [before_iff, before_iff]
  by_cases hstart : s.start = t.start
  · by_cases hstop : s.stop = t.stop
    · exact .inr (.inl (hext hstart hstop))
    · omega
  · omega

end Span

namespace Diagnostic

variable {d e : Diagnostic}

theorem atMost_iff : d.atMost e = true ↔
    d.span.before e.span = true ∨ d.span = e.span ∧
      (d.ruleId < e.ruleId ∨ d.ruleId = e.ruleId ∧ d.message ≤ e.message) := by
  unfold atMost
  by_cases hspan : d.span = e.span
  · by_cases hrule : d.ruleId = e.ruleId
    · simp [hspan, hrule, Span.before]
    · simp [hspan, hrule, Span.before]
  · simp [hspan]

theorem atMost_trans (d e f : Diagnostic) (h : d.atMost e = true) (h' : e.atMost f = true) :
    d.atMost f = true := by
  rw [atMost_iff] at *
  rcases h with hbefore | ⟨hspan, h⟩
  · rcases h' with hbefore' | ⟨hspan', -⟩
    · exact .inl (Span.before_trans hbefore hbefore')
    · exact .inl (hspan' ▸ hbefore)
  · rcases h' with hbefore' | ⟨hspan', h'⟩
    · exact .inl (hspan ▸ hbefore')
    · refine .inr ⟨hspan.trans hspan', ?_⟩
      rcases h with hlt | ⟨hrule, hle⟩
      · rcases h' with hlt' | ⟨hrule', -⟩
        · exact .inl (hlt.trans hlt')
        · exact .inl (hrule' ▸ hlt)
      · rcases h' with hlt' | ⟨hrule', hle'⟩
        · exact .inl (hrule ▸ hlt')
        · exact .inr ⟨hrule.trans hrule', hle.trans hle'⟩

theorem atMost_total (d e : Diagnostic) : (d.atMost e || e.atMost d) = true := by
  rw [Bool.or_eq_true, atMost_iff, atMost_iff]
  rcases Span.before_trichotomous d.span e.span with hbefore | hspan | hbefore
  · exact .inl (.inl hbefore)
  · rcases lt_trichotomy d.ruleId e.ruleId with hlt | hrule | hlt
    · exact .inl (.inr ⟨hspan, .inl hlt⟩)
    · rcases le_total d.message e.message with hle | hle
      · exact .inl (.inr ⟨hspan, .inr ⟨hrule, hle⟩⟩)
      · exact .inr (.inr ⟨hspan.symm, .inr ⟨hrule.symm, hle⟩⟩)
    · exact .inr (.inr ⟨hspan.symm, .inl hlt⟩)
  · exact .inr (.inl hbefore)

/-- Diagnostics that are level are reported by one rule. -/
theorem ruleId_eq_of_atMost (h : d.atMost e = true) (h' : e.atMost d = true) :
    d.ruleId = e.ruleId := by
  rw [atMost_iff] at *
  rcases h with hbefore | ⟨hspan, h⟩
  · rcases h' with hbefore' | ⟨hspan', -⟩
    · exact absurd (Span.before_trans hbefore hbefore') Span.not_before_self
    · exact absurd (hspan' ▸ hbefore) Span.not_before_self
  · rcases h' with hbefore' | ⟨-, h'⟩
    · exact absurd (hspan ▸ hbefore') Span.not_before_self
    · rcases h with hlt | ⟨hrule, -⟩
      · rcases h' with hlt' | ⟨hrule, -⟩
        · exact absurd hlt' hlt.asymm
        · exact hrule.symm
      · exact hrule

/-- A report holds nothing that was not found. -/
theorem mem_of_mem_arrange {diagnostics : List Diagnostic} (h : d ∈ arrange diagnostics) :
    d ∈ diagnostics :=
  List.mem_mergeSort.mp ((eraseRepsBy_sublist _ _).subset h)

/-- Leaving out what some rules report changes nothing else in a report. -/
theorem arrange_filter (keep : String → Bool) (diagnostics : List Diagnostic) :
    arrange (diagnostics.filter fun d => keep d.ruleId) =
      (arrange diagnostics).filter fun d => keep d.ruleId := by
  have hsorted := List.pairwise_mergeSort atMost_trans atMost_total diagnostics
  rw [arrange, arrange, ← filter_mergeSort atMost_trans atMost_total,
    filter_eraseReps hsorted fun d e h h' => congrArg keep (ruleId_eq_of_atMost h h')]

end Diagnostic
end Tidymark
