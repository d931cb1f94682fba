import Mathlib
import Tidymark.Proofs.Edit.Agreement
import Tidymark.Proofs.Sorting

/-! # Bundles

The edits of one finding are bundled: sorted, and looked through for two that conflict. No two edits
of a bundle conflict, not even two that are the same or two deletions, so a plan for it leaves out
nothing but insertions that stand there again. -/
namespace Tidymark

namespace Edit

variable {edits built : List Edit} {e f first second : Edit} {error : EditError}

/-- No edit is inverted, and none conflicts with another, nor with itself if it stands there
twice. -/
def Free (edits : List Edit) : Prop :=
  (∀ e ∈ edits, e.start ≤ e.stop) ∧ edits.Pairwise fun e f => e.conflicts f = false

/-- `e` and `f` stand at two places of a list, and `e` goes first when its members are put in the
order of their ranges: those with the same range stay in the order of the list. -/
def GoesFirst (edits : List Edit) (e f : Edit) : Prop :=
  ∃ i j : Nat, i ≠ j ∧ edits[i]? = some e ∧ edits[j]? = some f ∧
    (e.span.before f.span = true ∨ e.span = f.span ∧ i < j)

/-- The members of a list in the order of their ranges. -/
structure Sorts (edits built : List Edit) : Prop where
  perm : built.Perm edits
  sorted : built.Pairwise fun e f => e.atMost f = true
  /-- The edits at one range stay in their order. -/
  stable : ∀ s : Span, built.filter (·.span = s) = edits.filter (·.span = s)

theorem free_cons_iff : Free (e :: edits) ↔
    e.start ≤ e.stop ∧ (∀ f ∈ edits, e.conflicts f = false) ∧ Free edits := by
  simp only [Free, List.forall_mem_cons, List.pairwise_cons]
  tauto

/-- Whether edits are free does not depend on their order. -/
theorem free_iff_of_perm (h : built.Perm edits) : Free built ↔ Free edits := by
  unfold Free
  rw [h.pairwise_iff fun {e f} hfree => conflicts_comm e f ▸ hfree]
  simp only [h.mem_iff]

/-- Insertions keep out of each other's way. -/
theorem free_of_insertions (h : ∀ e ∈ edits, e.start = e.stop) : Free edits := by
  refine ⟨fun e he => Nat.le_of_eq (h e he), ?_⟩
  refine List.pairwise_of_forall_mem_list fun e he f hf => ?_
  have hinserts := h e he
  have hinserts' := h f hf
  rw [← Bool.not_eq_true, conflicts_iff]
  omega

theorem clash?_eq_none_iff : clash? edits = none ↔ Free edits := by
  induction edits with
  | nil => simp [clash?, Free]
  | cons e edits ih =>
    rw [free_cons_iff, ← ih, clash?]
    by_cases inverted : e.stop < e.start
    · simp [inverted, Nat.not_le.mpr inverted]
    · rw [if_neg inverted]
      cases hfound : edits.find? e.conflicts with
      | some f =>
        have hclash := List.find?_some hfound
        have hf := List.mem_of_find?_eq_some hfound
        simp only [reduceCtorEq, false_iff]
        rintro ⟨-, hfree, -⟩
        simp [hfree f hf] at hclash
      | none =>
        have hfree : ∀ f ∈ edits, e.conflicts f = false := by simpa using hfound
        simpa [Nat.not_lt.mp inverted] using fun _ => hfree

/-- What the edits are refused for: one that is inverted, or a conflict with a later one. -/
theorem clash?_eq_some (h : clash? edits = some error) :
    (∃ e ∈ edits, e.stop < e.start ∧ error = .inverted e.start e.stop) ∨
      ∃ first second, [first, second].Sublist edits ∧ first.conflicts second = true ∧
        error = .conflict first second := by
  induction edits with
  | nil => cases h
  | cons e edits ih =>
    unfold clash? at h
    split_ifs at h with inverted
    · exact .inl ⟨e, List.mem_cons_self, inverted, (Option.some.inj h).symm⟩
    · split at h
      · rename_i f hfound
        have hf := List.singleton_sublist.mpr (List.mem_of_find?_eq_some hfound)
        exact .inr ⟨e, f, hf.cons_cons e, List.find?_some hfound, (Option.some.inj h).symm⟩
      · rcases ih h with ⟨f, hf, hinverted⟩ | ⟨first, second, hsublist, hclash⟩
        · exact .inl ⟨f, List.mem_cons_of_mem e hf, hinverted⟩
        · exact .inr ⟨first, second, hsublist.cons e, hclash⟩

theorem bundle_eq_ok_iff :
    bundle edits = .ok built ↔ Free edits ∧ edits.mergeSort atMost = built := by
  rw [← free_iff_of_perm (List.mergeSort_perm edits atMost), ← clash?_eq_none_iff]
  simp only [bundle]
  cases clash? (edits.mergeSort atMost) <;> simp

/-- Edits at one range are in order as they stand. -/
theorem mergeSort_filter_span (edits : List Edit) (s : Span) :
    (edits.filter (·.span = s)).mergeSort atMost = edits.filter (·.span = s) := by
  refine List.mergeSort_of_pairwise (List.pairwise_of_forall_mem_list fun e he f hf => ?_)
  obtain rfl : e.span = s := by simpa using (List.mem_filter.mp he).2
  have hspan : f.span = e.span := by simpa using (List.mem_filter.mp hf).2
  simp only [span, Span.mk.injEq] at hspan
  rw [atMost_iff]
  omega

theorem sorts_mergeSort (edits : List Edit) : Sorts edits (edits.mergeSort atMost) where
  perm := List.mergeSort_perm edits atMost
  sorted := pairwise_mergeSort_atMost edits
  stable := fun s => by
    rw [filter_mergeSort atMost_trans atMost_total, mergeSort_filter_span]

/-- Of two sorted edits, the first goes first in the list that was sorted too. -/
theorem Sorts.goesFirst (h : Sorts edits built) (hsublist : [first, second].Sublist built) :
    GoesFirst edits first second := by
  have hmem : ∀ e ∈ [first, second], e ∈ edits := fun e he => h.perm.mem_iff.mp (hsublist.subset he)
  have hle : first.atMost second = true := by simpa using h.sorted.sublist hsublist
  by_cases hspan : first.span = second.span
  · have hlevel := hsublist.filter (·.span = second.span)
    rw [List.filter_eq_self.mpr (by simp [hspan]), h.stable] at hlevel
    obtain ⟨front, back, hsplit, hfirst, hsecond⟩ :=
      List.cons_sublist_iff.mp (hlevel.trans List.filter_sublist)
    obtain ⟨i, hi, hfirst⟩ := List.mem_iff_getElem.mp hfirst
    obtain ⟨j, hj, hsecond⟩ := List.mem_iff_getElem.mp (List.singleton_sublist.mp hsecond)
    refine ⟨i, front.length + j, by omega, ?_, ?_, .inr ⟨hspan, by omega⟩⟩
    · rw [hsplit, List.getElem?_append_left hi, List.getElem?_eq_getElem hi, hfirst]
    · rw [hsplit, List.getElem?_append_right (by omega), Nat.add_sub_cancel_left,
        List.getElem?_eq_getElem hj, hsecond]
  · obtain ⟨i, hi⟩ := List.mem_iff_getElem?.mp (hmem first (by simp))
    obtain ⟨j, hj⟩ := List.mem_iff_getElem?.mp (hmem second (by simp))
    refine ⟨i, j, ?_, hi, hj, .inl ?_⟩
    · rintro rfl
      exact hspan (Option.some.inj (hi.symm.trans hj) ▸ rfl)
    · rw [atMost_iff] at hle
      simp only [span, Span.mk.injEq] at hspan
      simp only [Span.before_iff, span]
      omega

theorem bundle_eq_error (h : bundle edits = .error error) :
    (∃ e ∈ edits, e.stop < e.start ∧ error = .inverted e.start e.stop) ∨
      ∃ first second, GoesFirst edits first second ∧ first.conflicts second = true ∧
        error = .conflict first second := by
  unfold bundle at h
  cases hclash : clash? (edits.mergeSort atMost) with
  | none => simp [hclash] at h
  | some error' =>
    obtain rfl : error' = error := by simpa [hclash] using h
    rcases clash?_eq_some hclash with ⟨e, he, hinverted⟩ | ⟨first, second, hsublist, hconflict⟩
    · exact .inl ⟨e, List.mem_mergeSort.mp he, hinverted⟩
    · exact .inr ⟨first, second, (sorts_mergeSort edits).goesFirst hsublist, hconflict⟩

/-- Only an insertion can stand there twice: any other edit conflicts with itself. -/
theorem Free.kind_eq_insertion (h : Free edits) (twice : 1 < edits.count e) :
    e.kind = .insertion := by
  have hduplicate : List.Duplicate e edits := List.duplicate_iff_two_le_count.mpr twice
  have hself : e.conflicts e = false := by
    simpa using h.2.sublist (List.duplicate_iff_sublist.mp hduplicate)
  have hproper := h.1 e hduplicate.mem
  rw [← Bool.not_eq_true, conflicts_iff] at hself
  have hempty : e.start = e.stop := by omega
  simp [kind, hempty]

end Edit

namespace EditPlan

open Edit Intake

variable {content : Text} {edits built : List Edit}

/-- A plan for free edits skips none, and accepts each of them once. -/
theorem ofEdits_of_free (hfree : Free edits) :
    (ofEdits edits).skipped = [] ∧
      (ofEdits edits).accepted = (edits.mergeSort Edit.atMost).eraseDups := by
  have hclash : (edits.mergeSort Edit.atMost).Pairwise fun e f => e.conflicts f = false :=
    ((free_iff_of_perm (List.mergeSort_perm edits atMost)).mpr hfree).2
  let Q : List Edit → Intake → List Edit → Prop := fun seen i _ =>
    i.skipped = [] ∧ i.accepted.reverse = seen.eraseDups
  have hrun : Q (edits.mergeSort Edit.atMost) (takenIn (edits.mergeSort Edit.atMost)) [] := by
    refine takenIn_induct (Q := Q) hfree.1 (by simp [Q]) ?_
    rintro seen i j e rest hsplit - ht ⟨hskipped, haccepted⟩
    have hmem : ∀ a, a ∈ i.accepted ↔ a ∈ seen := fun a => by
      rw [← List.mem_reverse, haccepted, List.mem_eraseDups]
    have hseen : ∀ a ∈ i.accepted, a.conflicts e = false := fun a ha =>
      (List.pairwise_append.mp (hsplit ▸ hclash)).2.2 a ((hmem a).mp ha) e List.mem_cons_self
    simp only [Q]
    rw [List.eraseDups_append, ← haccepted]
    cases ht with
    | repeated known => exact ⟨hskipped, by simp [List.removeAll, (hmem e).mp known]⟩
    | accepted new =>
      exact ⟨hskipped, by simp [List.removeAll, mt (hmem e).mpr new, List.eraseDups_cons]⟩
    | @joined last earlier _ latest clash =>
      rw [hseen last (latest ▸ List.mem_cons_self)] at clash
      cases clash
    | @skipped last earlier _ latest clash =>
      rw [hseen last (latest ▸ List.mem_cons_self)] at clash
      cases clash
  exact ⟨by rw [ofEdits_skipped, hrun.1, List.reverse_nil], hrun.2⟩

/-- A bundle that fits a content is a strict plan as it stands. -/
theorem prepareStrictly_of_bundle (hbuilt : bundle edits = .ok built)
    (hfits : ∀ e ∈ built, e.Fits content) :
    prepareStrictly content built = .ok (ofEdits built) ∧ (ofEdits built).skipped = [] ∧
      (ofEdits built).accepted = built.eraseDups := by
  obtain ⟨hfree, rfl⟩ := bundle_eq_ok_iff.mp hbuilt
  have hsorts := sorts_mergeSort edits
  obtain ⟨hskipped, haccepted⟩ := ofEdits_of_free ((free_iff_of_perm hsorts.perm).mpr hfree)
  rw [List.mergeSort_of_pairwise hsorts.sorted] at haccepted
  exact ⟨prepareStrictly_eq_ok_iff.mpr ⟨prepare_eq_ok_iff.mpr ⟨hfits, rfl⟩, hskipped⟩, hskipped,
    haccepted⟩

end EditPlan

namespace Edit

/-- Edits can be bundled if and only if none is inverted and no two conflict. The bundle is the
edits in the order of their ranges, and a strict plan for any content that they fit, in which
only an insertion that stands there again is left out. A conflict that they are refused for is one
of two of the edits, the one that goes first named first. -/
theorem bundle_ok_iff_free (edits : List Edit) :
    ((∃ built, bundle edits = .ok built) ↔
      (∀ e ∈ edits, e.start ≤ e.stop) ∧ edits.Pairwise fun e f => e.conflicts f = false) ∧
    (∀ built, bundle edits = .ok built →
      Sorts edits built ∧ (∀ e, 1 < built.count e → e.kind = .insertion) ∧
      ∀ content : Text, (∀ e ∈ edits, e.Fits content) →
        ∃ plan, EditPlan.prepareStrictly content built = .ok plan ∧ plan.skipped = [] ∧
          plan.accepted = built.eraseDups) ∧
    ∀ first second, bundle edits = .error (.conflict first second) →
      GoesFirst edits first second ∧ first.conflicts second = true := by
  refine ⟨?_, fun built hbuilt => ?_, fun first second h => ?_⟩
  · simp only [bundle_eq_ok_iff, exists_and_left, exists_eq', and_true]
    rfl
  · obtain ⟨hfree, rfl⟩ := bundle_eq_ok_iff.mp hbuilt
    have hsorts := sorts_mergeSort edits
    refine ⟨hsorts, fun e => ((free_iff_of_perm hsorts.perm).mpr hfree).kind_eq_insertion, ?_⟩
    intro content hfits
    exact ⟨_, EditPlan.prepareStrictly_of_bundle hbuilt
      fun e he => hfits e (hsorts.perm.mem_iff.mp he)⟩
  · rcases bundle_eq_error h with ⟨e, -, -, herror⟩ | ⟨e, f, hfirst, hclash, herror⟩
    · cases herror
    · obtain ⟨rfl, rfl⟩ := EditError.conflict.inj herror
      exact ⟨hfirst, hclash⟩

/-- An insertion stands there twice, and its repetition is left out; of a deletion and a replacement
that overlap, the conflict names the replacement first, which starts first. -/
theorem bundle_ok_iff_free_four :
    let content : Text := ['a', 'b', 'c', 'd']
    let edits : List Edit := [insert 3 ['z'], insert 3 ['y'], ⟨0, 1, ['x']⟩, insert 3 ['z']]
    let built : List Edit := [⟨0, 1, ['x']⟩, insert 3 ['z'], insert 3 ['y'], insert 3 ['z']]
    (bundle edits = .ok built ∧ Sorts edits built ∧
      ∃ plan, EditPlan.prepareStrictly content built = .ok plan ∧ plan.skipped = [] ∧
        plan.accepted = [⟨0, 1, ['x']⟩, insert 3 ['z'], insert 3 ['y']]) ∧
    GoesFirst [delete 5 8, ⟨2, 6, ['x']⟩] ⟨2, 6, ['x']⟩ (delete 5 8) := by
  intro content edits built
  have hbuilt : bundle edits = .ok built := by cbv
  have hfits : ∀ e ∈ edits, e.Fits content := fun e he => fault?_eq_none_iff.mp (by
    revert e
    decide)
  have hfails : bundle [delete 5 8, ⟨2, 6, ['x']⟩] =
      .error (.conflict ⟨2, 6, ['x']⟩ (delete 5 8)) := by cbv
  obtain ⟨hsorts, -, hplan⟩ := (bundle_ok_iff_free edits).2.1 built hbuilt
  exact ⟨⟨hbuilt, hsorts, hplan content hfits⟩, ((bundle_ok_iff_free _).2.2 _ _ hfails).1⟩

end Edit
end Tidymark
