import Mathlib.Data.List.Nodup
import Tidymark.Edit.Plan
import Tidymark.Proofs.Text.Cut

/-! # Taking in edits

The edits of a plan are taken in one after another, in the order of their ranges. `Takes` says what
one edit can lead to, and `Ready` what holds between two edits: the accepted edits follow one
another without sharing a byte, and what is still to come starts at or behind each of them. -/
namespace Tidymark

namespace Edit

/-- The range of an edit lies in a content and cuts no character. -/
structure Fits (content : Text) (e : Edit) : Prop where
  start_le_stop : e.start ≤ e.stop
  stop_le_size : e.stop ≤ content.size
  start_boundary : content.isBoundary e.start = true
  stop_boundary : content.isBoundary e.stop = true

theorem fault?_eq_none_iff {content : Text} {e : Edit} :
    e.fault? content = none ↔ e.Fits content := by
  constructor
  · intro h
    unfold fault? at h
    split at h <;> try cases h
    split at h <;> try cases h
    split at h <;> try cases h
    split at h <;> try cases h
    rename_i h1 h2 h3 h4
    exact ⟨by omega, by omega, by simpa using h3, by simpa using h4⟩
  · rintro ⟨h1, h2, h3, h4⟩
    simp [fault?, h3, h4, Nat.not_lt.mpr h1, Nat.not_lt.mpr h2]

theorem conflicts_iff {e f : Edit} :
    e.conflicts f = true ↔ e.start < f.stop ∧ f.start < e.stop := by
  simp [conflicts, span]

theorem isDeletion_iff {e : Edit} :
    e.isDeletion = true ↔ e.start ≠ e.stop ∧ e.replacement = [] := by
  unfold isDeletion kind
  by_cases h : e.start = e.stop <;> cases e.replacement <;> simp [h]

/-- A deletion that grows to the right is one. -/
theorem isDeletion_widen {e : Edit} (h : e.isDeletion = true) (proper : e.start ≤ e.stop)
    {stop : Nat} (hstop : e.stop ≤ stop) :
    Edit.isDeletion ⟨e.start, stop, e.replacement⟩ = true := by
  rw [isDeletion_iff] at h ⊢
  simp only
  exact ⟨by omega, h.2⟩

theorem atMost_iff {e f : Edit} :
    e.atMost f = true ↔ e.start < f.start ∨ e.start = f.start ∧ e.stop ≤ f.stop := by
  simp [atMost]

theorem atMost_trans (e f g : Edit) (h : e.atMost f = true) (h' : f.atMost g = true) :
    e.atMost g = true := by
  rw [atMost_iff] at *
  omega

theorem atMost_total (e f : Edit) : (e.atMost f || f.atMost e) = true := by
  rw [Bool.or_eq_true, atMost_iff, atMost_iff]
  omega

theorem pairwise_mergeSort_atMost (edits : List Edit) :
    (edits.mergeSort atMost).Pairwise fun e f => e.atMost f = true :=
  List.pairwise_mergeSort atMost_trans atMost_total edits

/-- `f` starts behind `e`, or with it; an insertion does not follow an edit that takes bytes from
the same place on. -/
def Precedes (e f : Edit) : Prop :=
  e.start < f.start ∨ e.start = f.start ∧ (e.start < e.stop → f.start < f.stop)

theorem Precedes.start_le {e f : Edit} (h : e.Precedes f) : e.start ≤ f.start := by
  unfold Precedes at h
  omega

theorem precedes_of_atMost {e f : Edit} (h : e.atMost f = true) : e.Precedes f := by
  rw [atMost_iff] at h
  unfold Precedes
  omega

/-- An edit that follows another without a conflict leaves its range behind. -/
theorem Precedes.stop_le_start {e f : Edit} (h : e.Precedes f) (hf : f.start ≤ f.stop)
    (free : e.conflicts f ≠ true) : e.stop ≤ f.start := by
  rw [Ne, conflicts_iff] at free
  unfold Precedes at h
  omega

end Edit

namespace EditPlan.Intake

/-- What becomes of an edit that is taken in. -/
inductive Takes (i : Intake) (e : Edit) : Intake → Prop
  | repeated (known : e ∈ i.accepted) : Takes i e { i with merged := i.merged + 1 }
  | accepted (new : e ∉ i.accepted) (free : ∀ a ∈ i.accepted, a.conflicts e = false) :
      Takes i e { i with accepted := e :: i.accepted }
  | joined {last : Edit} {earlier : List Edit} (new : e ∉ i.accepted)
      (latest : i.accepted = last :: earlier) (clash : last.conflicts e = true)
      (deletes : last.isDeletion = true) (deletes' : e.isDeletion = true) :
      Takes i e ⟨⟨last.start, max last.stop e.stop, last.replacement⟩ :: earlier, i.skipped,
        i.merged + 1⟩
  | skipped {last : Edit} {earlier : List Edit} (new : e ∉ i.accepted)
      (latest : i.accepted = last :: earlier) (clash : last.conflicts e = true)
      (unmergeable : (last.isDeletion && e.isDeletion) = false) :
      Takes i e { i with skipped := e :: i.skipped }

/-- What holds of the accepted edits, the latest first, while the edits `rest` are still to be taken
in. -/
structure Ready (accepted rest : List Edit) : Prop where
  proper : ∀ a ∈ accepted, a.start ≤ a.stop
  apart : accepted.Pairwise fun later earlier => earlier.stop ≤ later.start
  distinct : accepted.Nodup
  precedes : ∀ a ∈ accepted, ∀ e ∈ rest, a.Precedes e
  restProper : ∀ e ∈ rest, e.start ≤ e.stop
  restSorted : rest.Pairwise Edit.Precedes

variable {i j : Intake} {e last : Edit} {accepted earlier rest : List Edit}

/-- An accepted edit stands where the scan for repetitions looks for it. -/
theorem mem_takeWhile_of_mem
    (apart : accepted.Pairwise fun later earlier => earlier.stop ≤ later.start)
    (proper : e.start ≤ e.stop) (behind : ∀ a ∈ accepted, a.start ≤ e.start)
    (h : e ∈ accepted) : e ∈ accepted.takeWhile (·.start == e.start) := by
  induction accepted with
  | nil => cases h
  | cons a accepted ih =>
    obtain ⟨ha, apart⟩ := List.pairwise_cons.mp apart
    have hstart : a.start = e.start := by
      rcases List.mem_cons.mp h with rfl | h
      · rfl
      · have h1 := ha e h
        have h2 := behind a (by simp)
        omega
    rw [List.takeWhile_cons_of_pos (by simp [hstart])]
    rcases List.mem_cons.mp h with rfl | h
    · simp
    · exact List.mem_cons_of_mem _ (ih apart (fun b hb => behind b (by simp [hb])) h)

theorem Ready.mem_takeWhile_iff (h : Ready accepted (e :: rest)) :
    e ∈ accepted.takeWhile (·.start == e.start) ↔ e ∈ accepted :=
  ⟨fun hm => (List.takeWhile_sublist _).subset hm,
    mem_takeWhile_of_mem h.apart (h.restProper e (by simp))
      fun a ha => (h.precedes a ha e (by simp)).start_le⟩

/-- Only the latest accepted edit can conflict with the next one. -/
theorem Ready.free_of_latest (h : Ready (last :: earlier) (e :: rest)) :
    ∀ a ∈ earlier, a.conflicts e = false := by
  intro a ha
  have h1 := List.rel_of_pairwise_cons h.apart ha
  have h2 := (h.precedes last (by simp) e (by simp)).start_le
  rw [← Bool.not_eq_true, Edit.conflicts_iff]
  omega

theorem Ready.conflict_iff_latest (h : Ready accepted (e :: rest)) :
    (∃ a ∈ accepted, a.conflicts e = true) ↔
      ∃ last, accepted.head? = some last ∧ last.conflicts e = true := by
  cases accepted with
  | nil => simp
  | cons last earlier =>
    have hfree := h.free_of_latest
    simp only [List.mem_cons, exists_eq_or_imp, List.head?_cons, Option.some.injEq,
      exists_eq_left', or_iff_left_iff_imp]
    rintro ⟨a, ha, hc⟩
    rw [hfree a ha] at hc
    cases hc

theorem Ready.tail (h : Ready accepted (e :: rest)) : Ready accepted rest where
  proper := h.proper
  apart := h.apart
  distinct := h.distinct
  precedes := fun a ha f hf => h.precedes a ha f (by simp [hf])
  restProper := fun f hf => h.restProper f (by simp [hf])
  restSorted := h.restSorted.of_cons

theorem Ready.accept (h : Ready accepted (e :: rest)) (new : e ∉ accepted)
    (free : ∀ a ∈ accepted, a.conflicts e = false) : Ready (e :: accepted) rest := by
  have hproper := h.restProper e (by simp)
  refine { h.tail with proper := ?_, apart := ?_, distinct := ?_, precedes := ?_ }
  · simpa using ⟨hproper, h.proper⟩
  · refine List.pairwise_cons.mpr ⟨fun a ha => ?_, h.apart⟩
    exact (h.precedes a ha e (by simp)).stop_le_start hproper (by simp [free a ha])
  · exact List.nodup_cons.mpr ⟨new, h.distinct⟩
  · intro a ha f hf
    rcases List.mem_cons.mp ha with rfl | ha
    · exact List.rel_of_pairwise_cons h.restSorted hf
    · exact h.tail.precedes a ha f hf

/-- The latest edit may grow to the right if it takes bytes already: what is to come starts at or
behind it, and no insertion starts with it. -/
theorem Ready.widen (h : Ready (last :: earlier) rest) {stop : Nat} (text : Text)
    (hlast : last.start < last.stop) (hstop : last.stop ≤ stop) :
    Ready (⟨last.start, stop, text⟩ :: earlier) rest := by
  obtain ⟨hapart, hearlier⟩ := List.pairwise_cons.mp h.apart
  refine { h with proper := ?_, apart := ?_, distinct := ?_, precedes := ?_ }
  · intro a ha
    rcases List.mem_cons.mp ha with rfl | ha
    · simp only
      omega
    · exact h.proper a (by simp [ha])
  · exact List.pairwise_cons.mpr ⟨hapart, hearlier⟩
  · refine List.nodup_cons.mpr ⟨fun hm => ?_, (List.nodup_cons.mp h.distinct).2⟩
    have h1 := hapart _ hm
    simp only at h1
    omega
  · intro a ha f hf
    rcases List.mem_cons.mp ha with rfl | ha
    · have h1 := h.precedes last (by simp) f hf
      unfold Edit.Precedes at h1 ⊢
      simp only
      omega
    · exact h.precedes a (by simp [ha]) f hf

theorem add_takes (h : Ready i.accepted (e :: rest)) : Takes i e (i.add e) := by
  have hscan := h.mem_takeWhile_iff
  unfold add
  by_cases known : e ∈ i.accepted
  · rw [if_pos (by simpa using hscan.mpr known)]
    exact .repeated known
  · rw [if_neg (by simpa using fun hm => known (hscan.mp hm))]
    cases hi : i.accepted with
    | nil => simpa [hi] using Takes.accepted (i := i) known (by simp [hi])
    | cons last earlier =>
      by_cases clash : last.conflicts e = true
      · cases hd : last.isDeletion && e.isDeletion with
        | true =>
          have hd' := Bool.and_eq_true_iff.mp hd
          simpa [clash, hd] using Takes.joined known hi clash hd'.1 hd'.2
        | false => simpa [clash, hd, hi] using Takes.skipped known hi clash hd
      · have hfree : ∀ a ∈ i.accepted, a.conflicts e = false := by
          intro a ha
          rcases List.mem_cons.mp (hi ▸ ha) with rfl | ha
          · simpa using clash
          · exact (hi ▸ h).free_of_latest a ha
        simpa [clash, hi] using Takes.accepted known hfree

/-- Taking in an edit leaves everything ready for the next one. -/
theorem Takes.ready (ht : Takes i e j) (h : Ready i.accepted (e :: rest)) :
    Ready j.accepted rest := by
  cases ht with
  | repeated known => exact h.tail
  | accepted new free => exact h.accept new free
  | @joined last earlier new latest clash deletes deletes' =>
    rw [latest] at h
    have h1 := (Edit.isDeletion_iff.mp deletes).1
    have h2 := h.proper last (by simp)
    exact h.tail.widen _ (by omega) (Nat.le_max_left _ _)
  | skipped => exact h.tail

/-- What taking in one edit keeps, taking in many keeps. -/
theorem foldl_add_induct {Q : Intake → List Edit → Prop}
    (step : ∀ {i j e rest}, Ready i.accepted (e :: rest) → Takes i e j → Q i (e :: rest) → Q j rest)
    (edits rest : List Edit) (h : Ready i.accepted (edits ++ rest)) (hq : Q i (edits ++ rest)) :
    Ready (edits.foldl Intake.add i).accepted rest ∧ Q (edits.foldl Intake.add i) rest := by
  induction edits generalizing i with
  | nil => exact ⟨h, hq⟩
  | cons e edits ih =>
    have ht := add_takes h
    exact ih (ht.ready h) (step h ht hq)

theorem ready_mergeSort {edits : List Edit} (h : ∀ e ∈ edits, e.start ≤ e.stop) :
    Ready [] (edits.mergeSort Edit.atMost) where
  proper := by simp
  apart := List.Pairwise.nil
  distinct := List.nodup_nil
  precedes := by simp
  restProper := fun e he => h e (List.mem_mergeSort.mp he)
  restSorted := (Edit.pairwise_mergeSort_atMost edits).imp Edit.precedes_of_atMost

end EditPlan.Intake
end Tidymark
