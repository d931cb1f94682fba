import Tidymark.Proofs.Edit.Intake

/-! # Plans are well formed

A plan lists its edits in the order of their ranges, none conflicts with another, none stands there
twice, and each fits the content, deletions that were joined included. Only edits that do not fit
keep a plan from being made. -/
namespace Tidymark.EditPlan

open Intake

/-- A plan that can be applied to a content from left to right. -/
structure WellFormed (content : Text) (plan : EditPlan) : Prop where
  sorted : plan.accepted.Pairwise fun a b => a.atMost b = true
  free : plan.accepted.Pairwise fun a b => a.conflicts b = false
  distinct : plan.accepted.Nodup
  fits : ∀ a ∈ plan.accepted, a.Fits content

/-- What comes of taking in edits one after another. -/
def takenIn (edits : List Edit) : Intake := edits.foldl Intake.add ⟨[], [], 0⟩

theorem ofEdits_accepted (edits : List Edit) :
    (ofEdits edits).accepted = (takenIn (edits.mergeSort Edit.atMost)).accepted.reverse := rfl

theorem ofEdits_skipped (edits : List Edit) :
    (ofEdits edits).skipped = (takenIn (edits.mergeSort Edit.atMost)).skipped.reverse := rfl

theorem ready_takenIn {edits before after : List Edit} (proper : ∀ e ∈ edits, e.start ≤ e.stop)
    (h : edits.mergeSort Edit.atMost = before ++ after) : Ready (takenIn before).accepted after :=
  (foldl_add_induct (i := ⟨[], [], 0⟩) (Q := fun _ _ => True) (fun _ _ _ => trivial) before after
    (h ▸ ready_mergeSort proper) trivial).1

/-- What holds when no edit is taken in yet, and is kept as one is, holds in the end. `Q` is about
the edits seen so far, what became of them, and those still to come. -/
theorem takenIn_induct {Q : List Edit → Intake → List Edit → Prop} {edits : List Edit}
    (proper : ∀ e ∈ edits, e.start ≤ e.stop) (init : Q [] ⟨[], [], 0⟩ (edits.mergeSort Edit.atMost))
    (step : ∀ {seen i j e rest}, seen ++ e :: rest = edits.mergeSort Edit.atMost →
      Ready i.accepted (e :: rest) → Takes i e j → Q seen i (e :: rest) → Q (seen ++ [e]) j rest) :
    Q (edits.mergeSort Edit.atMost) (takenIn (edits.mergeSort Edit.atMost)) [] := by
  let sorted := edits.mergeSort Edit.atMost
  have hstep : ∀ {i j : Intake} {e : Edit} {rest : List Edit}, Ready i.accepted (e :: rest) →
      Takes i e j → (∃ seen, seen ++ e :: rest = sorted ∧ Q seen i (e :: rest)) →
      ∃ seen, seen ++ rest = sorted ∧ Q seen j rest := by
    rintro i j e rest hready ht ⟨seen, hsplit, hq⟩
    exact ⟨seen ++ [e], by simpa using hsplit, step hsplit hready ht hq⟩
  obtain ⟨-, seen, hseen, hq⟩ := foldl_add_induct (i := ⟨[], [], 0⟩)
    (Q := fun i rest => ∃ seen, seen ++ rest = sorted ∧ Q seen i rest) hstep sorted []
    (by simpa using ready_mergeSort proper) ⟨[], by simp, by simpa using init⟩
  obtain rfl : seen = sorted := by simpa using hseen
  exact hq

/-- What edits have and joined deletions keep, the accepted edits have. -/
theorem forall_accepted_ofEdits {P : Edit → Prop} {edits : List Edit}
    (proper : ∀ e ∈ edits, e.start ≤ e.stop) (each : ∀ e ∈ edits, P e)
    (join : ∀ e f : Edit, P e → P f → e.isDeletion = true → f.isDeletion = true →
      e.start ≤ f.start → e.conflicts f = true →
      P ⟨e.start, max e.stop f.stop, e.replacement⟩) :
    ∀ a ∈ (ofEdits edits).accepted, P a := by
  intro a ha
  rw [ofEdits_accepted, List.mem_reverse] at ha
  refine (takenIn_induct (Q := fun _ i rest => (∀ a ∈ i.accepted, P a) ∧ ∀ f ∈ rest, P f) proper
    ⟨by simp, fun f hf => each f (List.mem_mergeSort.mp hf)⟩ ?_).1 a ha
  rintro seen i j e rest - hr ht ⟨hi, he⟩
  refine ⟨?_, fun f hf => he f (by simp [hf])⟩
  cases ht with
  | repeated | skipped => exact hi
  | accepted => simpa using ⟨he e (by simp), hi⟩
  | @joined last earlier new latest clash deletes deletes' =>
    rw [latest] at hi hr
    intro a ha
    rcases List.mem_cons.mp ha with rfl | ha
    · exact join last e (hi last (by simp)) (he e (by simp)) deletes deletes'
        (hr.precedes last (by simp) e (by simp)).start_le clash
    · exact hi a (by simp [ha])

/-- Of edits that follow one another, the accepted ones leave each other's ranges alone. -/
theorem apart_ofEdits {edits : List Edit} (proper : ∀ e ∈ edits, e.start ≤ e.stop) :
    (ofEdits edits).accepted.Pairwise fun a b => a.stop ≤ b.start := by
  rw [ofEdits_accepted, List.pairwise_reverse]
  exact (ready_takenIn proper (List.append_nil _).symm).apart

theorem wellFormed_ofEdits {content : Text} {edits : List Edit}
    (h : ∀ e ∈ edits, e.Fits content) : (ofEdits edits).WellFormed content := by
  have proper : ∀ e ∈ edits, e.start ≤ e.stop := fun e he => (h e he).start_le_stop
  have ready := ready_takenIn proper (List.append_nil _).symm
  have apart := apart_ofEdits proper
  have fits : ∀ a ∈ (ofEdits edits).accepted, a.Fits content := by
    refine forall_accepted_ofEdits proper h fun e f he hf _ _ hstart _ => ?_
    have h1 := he.start_le_stop
    rcases Nat.le_total e.stop f.stop with hle | hle
    · rw [Nat.max_eq_right hle]
      exact ⟨by simp only; omega, hf.stop_le_size, he.start_boundary, hf.stop_boundary⟩
    · rw [Nat.max_eq_left hle]
      exact ⟨h1, he.stop_le_size, he.start_boundary, he.stop_boundary⟩
  refine ⟨apart.imp_of_mem fun {a b} ha hb hab => ?_, apart.imp fun {a b} hab => ?_, ?_, fits⟩
  · have h1 := (fits a ha).start_le_stop
    have h2 := (fits b hb).start_le_stop
    rw [Edit.atMost_iff]
    omega
  · rw [← Bool.not_eq_true, Edit.conflicts_iff]
    omega
  · rw [ofEdits_accepted, List.nodup_reverse]
    exact ready.distinct

theorem prepare_eq_ok_iff {content : Text} {edits : List Edit} {plan : EditPlan} :
    prepare content edits = .ok plan ↔ (∀ e ∈ edits, e.Fits content) ∧ ofEdits edits = plan := by
  unfold prepare
  cases h : edits.findSome? (Edit.fault? content) with
  | none =>
    have hfits : ∀ e ∈ edits, e.Fits content := fun e he =>
      Edit.fault?_eq_none_iff.mp (List.findSome?_eq_none_iff.mp h e he)
    simpa using fun _ => hfits
  | some error =>
    obtain ⟨e, he, hfault⟩ := List.exists_of_findSome?_eq_some h
    refine iff_of_false (by simp) fun hf => ?_
    rw [Edit.fault?_eq_none_iff.mpr (hf.1 e he)] at hfault
    cases hfault

theorem prepare_eq_error_iff {content : Text} {edits : List Edit} :
    (∃ error, prepare content edits = .error error) ↔ ∃ e ∈ edits, ¬ e.Fits content := by
  have hok : prepare content edits = .ok (ofEdits edits) ↔ _ := prepare_eq_ok_iff
  cases h : prepare content edits with
  | ok plan =>
    have hfits := (prepare_eq_ok_iff.mp h).1
    refine iff_of_false (by simp) ?_
    rintro ⟨e, he, hn⟩
    exact hn (hfits e he)
  | error error =>
    refine iff_of_true ⟨error, rfl⟩ ?_
    by_contra hn
    push Not at hn
    rw [hok.mpr ⟨hn, rfl⟩] at h
    cases h

/-- A plan that is prepared is well formed, and preparing fails for edits that do not fit alone.
While the edits are taken in, looking at the latest accepted edit finds every conflict, and looking
back to the first other start finds every repetition. -/
theorem prepare_wellFormed (content : Text) (edits : List Edit) :
    (∀ plan, prepare content edits = .ok plan → plan.WellFormed content ∧
      ∀ before e after, edits.mergeSort Edit.atMost = before ++ e :: after →
        ((∃ a ∈ (takenIn before).accepted, a.conflicts e = true) ↔
          ∃ last, (takenIn before).accepted.head? = some last ∧ last.conflicts e = true) ∧
        (e ∈ (takenIn before).accepted ↔
          e ∈ (takenIn before).accepted.takeWhile (·.start == e.start))) ∧
    ((∃ error, prepare content edits = .error error) ↔ ∃ e ∈ edits, ¬ e.Fits content) := by
  refine ⟨fun plan hplan => ?_, prepare_eq_error_iff⟩
  obtain ⟨hfits, rfl⟩ := prepare_eq_ok_iff.mp hplan
  refine ⟨wellFormed_ofEdits hfits, fun before e after hsplit => ?_⟩
  have ready := ready_takenIn (fun e he => (hfits e he).start_le_stop) hsplit
  exact ⟨ready.conflict_iff_latest, ready.mem_takeWhile_iff.symm⟩

end Tidymark.EditPlan
