import Tidymark.Proofs.Answer
import Tidymark.Proofs.Edit.Plan

/-! # Edits that agree

Edits agree if none conflicts with another, except that deletions may overlap and that an edit may
stand there twice. Then no edit has to be skipped: the only invariant is that a joined deletion
conflicts with nothing that its parts do not conflict with. -/
namespace Tidymark

/-- Two edits that can be applied together. -/
def Edit.Agrees (e f : Edit) : Prop :=
  e.conflicts f = true → e = f ∨ e.isDeletion = true ∧ f.isDeletion = true

namespace Edit

variable {e f g : Edit}

theorem agrees_of_insertions (he : e.start = e.stop) (hf : f.start = f.stop) : e.Agrees f := by
  intro hclash
  rw [conflicts_iff] at hclash
  omega

theorem agrees_of_stop_le_start (h : e.stop ≤ f.start) : e.Agrees f := by
  intro hclash
  rw [conflicts_iff] at hclash
  omega

theorem Agrees.symm (h : e.Agrees f) : f.Agrees e := by
  intro hclash
  rcases h (conflicts_comm e f ▸ hclash) with rfl | ⟨he, hf⟩
  · exact .inl rfl
  · exact .inr ⟨hf, he⟩

theorem not_agrees_iff :
    ¬ e.Agrees f ↔ e.conflicts f = true ∧ e ≠ f ∧ (e.isDeletion && f.isDeletion) = false := by
  simp [Agrees]

theorem Agrees.free_of_not_isDeletion (h : e.Agrees g) (he : e.isDeletion = true)
    (hg : g.isDeletion ≠ true) : e.conflicts g ≠ true := by
  intro hclash
  rcases h hclash with rfl | ⟨-, hdeletes⟩
  · exact hg he
  · exact hg hdeletes

/-- What agrees with two overlapping deletions agrees with the deletion that they are joined to. -/
theorem Agrees.join (he : e.Agrees g) (hf : f.Agrees g) (hclash : e.conflicts f = true)
    (proper : e.start ≤ e.stop) (hg : g.start ≤ g.stop) (hdeletes : e.isDeletion = true)
    (hdeletes' : f.isDeletion = true) :
    Edit.Agrees ⟨e.start, max e.stop f.stop, e.replacement⟩ g := by
  intro hjoined
  by_cases hgdel : g.isDeletion = true
  · exact .inr ⟨isDeletion_widen hdeletes proper (Nat.le_max_left _ _), hgdel⟩
  · have hfree := he.free_of_not_isDeletion hdeletes hgdel
    have hfree' := hf.free_of_not_isDeletion hdeletes' hgdel
    simp only [ne_eq, conflicts_iff] at hfree hfree' hclash hjoined
    omega

/-- What keeps an edit out keeps it out as it grows: a deletion that grows keeps out no deletion. -/
theorem not_agrees_widen (h : ¬ e.Agrees g) (hdeletes : e.isDeletion = true)
    (proper : e.start ≤ e.stop) {stop : Nat} (hstop : e.stop ≤ stop) :
    ¬ Edit.Agrees ⟨e.start, stop, e.replacement⟩ g := by
  obtain ⟨hclash, -, hgdel⟩ := not_agrees_iff.mp h
  rw [hdeletes, Bool.true_and] at hgdel
  have hwide := isDeletion_widen hdeletes proper hstop
  refine not_agrees_iff.mpr ⟨?_, ?_, by rw [hgdel, Bool.and_false]⟩
  · rw [conflicts_iff] at hclash ⊢
    simp only
    omega
  · rintro rfl
    rw [hwide] at hgdel
    cases hgdel

end Edit

namespace EditPlan

open Intake

variable {content : Text} {edits : List Edit}

theorem skipped_ofEdits (proper : ∀ e ∈ edits, e.start ≤ e.stop)
    (hagree : ∀ e ∈ edits, ∀ f ∈ edits, e.Agrees f) : (ofEdits edits).skipped = [] := by
  let Q : List Edit → Intake → List Edit → Prop := fun _ i rest =>
    i.skipped = [] ∧ (∀ a ∈ i.accepted, ∀ f ∈ rest, a.Agrees f) ∧
      ∀ e ∈ rest, ∀ f ∈ rest, e.Agrees f
  have hrun : Q (edits.mergeSort Edit.atMost) (takenIn (edits.mergeSort Edit.atMost)) [] := by
    refine takenIn_induct (Q := Q) proper
      ⟨rfl, by simp, fun e he f hf => hagree e (by simpa using he) f (by simpa using hf)⟩ ?_
    rintro seen i j e rest - hready ht ⟨hskipped, haccepted, hrest⟩
    have hrest' : ∀ f ∈ rest, ∀ g ∈ rest, f.Agrees g := fun f hf g hg =>
      hrest f (by simp [hf]) g (by simp [hg])
    have haccepted' : ∀ a ∈ i.accepted, ∀ f ∈ rest, a.Agrees f := fun a ha f hf =>
      haccepted a ha f (by simp [hf])
    cases ht with
    | repeated known => exact ⟨hskipped, haccepted', hrest'⟩
    | accepted new free =>
      refine ⟨hskipped, fun a ha f hf => ?_, hrest'⟩
      rcases List.mem_cons.mp ha with rfl | ha
      · exact hrest a (by simp) f (by simp [hf])
      · exact haccepted' a ha f hf
    | @joined last earlier new latest clash deletes deletes' =>
      rw [latest] at hready haccepted haccepted'
      refine ⟨hskipped, fun a ha f hf => ?_, hrest'⟩
      rcases List.mem_cons.mp ha with rfl | ha
      · exact (haccepted' last (by simp) f hf).join (hrest e (by simp) f (by simp [hf])) clash
          (hready.proper last (by simp)) (hready.restProper f (by simp [hf])) deletes deletes'
      · exact haccepted' a (by simp [ha]) f hf
    | @skipped last earlier new latest clash unmergeable =>
      rw [latest] at new haccepted
      rcases haccepted last (by simp) e (by simp) clash with rfl | ⟨hlast, he⟩
      · exact absurd List.mem_cons_self new
      · simp [hlast, he] at unmergeable
  rw [ofEdits_skipped, hrun.1, List.reverse_nil]

/-- A plan is strict if it skips nothing. -/
theorem prepareStrictly_eq_ok_iff {plan : EditPlan} : prepareStrictly content edits = .ok plan ↔
    prepare content edits = .ok plan ∧ plan.skipped = [] := by
  unfold prepareStrictly
  rw [bind_eq_ok_iff]
  constructor
  · rintro ⟨plan', hplan, h⟩
    split at h
    · rename_i hskipped
      obtain rfl := Except.ok.inj h
      exact ⟨hplan, hskipped⟩
    · cases h
  · rintro ⟨hplan, hskipped⟩
    exact ⟨plan, hplan, by rw [hskipped]⟩

/-- Edits that fit and agree are a plan, even if none may be skipped. -/
theorem prepareStrictly_eq_ok (hfits : ∀ e ∈ edits, e.Fits content)
    (hagree : ∀ e ∈ edits, ∀ f ∈ edits, e.Agrees f) :
    prepareStrictly content edits = .ok (ofEdits edits) :=
  prepareStrictly_eq_ok_iff.mpr ⟨prepare_eq_ok_iff.mpr ⟨hfits, rfl⟩,
    skipped_ofEdits (fun e he => (hfits e he).start_le_stop) hagree⟩

end EditPlan
end Tidymark
