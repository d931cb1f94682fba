import Tidymark.Proofs.Edit.Account
import Tidymark.Proofs.Edit.Agreement
import Tidymark.Proofs.Sorting

/-! # Plans that skip nothing

A plan skips nothing if and only if its edits agree in pairs, although it never compares them in
pairs: an edit is compared with the latest accepted one, which may be a deletion larger than all of
them. What an edit was skipped for stays accepted, and no growth of it makes the two agree. And of
two edits that were both taken in, each lies in an accepted one; if they conflict it is the same
one, hence a deletion made of both, or both are that edit. -/
namespace Tidymark.EditPlan

open Intake

variable {content : Text} {edits : List Edit} {plan : EditPlan} {e first second : Edit}

/-- An edit is skipped for an accepted edit before it that it does not agree with. -/
theorem exists_not_agrees_of_mem_skipped (proper : ∀ e ∈ edits, e.start ≤ e.stop)
    (h : e ∈ (ofEdits edits).skipped) :
    ∃ a ∈ (ofEdits edits).accepted, a.start ≤ e.start ∧ ¬ a.Agrees e := by
  let Q : List Edit → Intake → List Edit → Prop := fun _ i _ =>
    ∀ e ∈ i.skipped, ∃ a ∈ i.accepted, a.start ≤ e.start ∧ ¬ a.Agrees e
  have hrun : Q (edits.mergeSort Edit.atMost) (takenIn (edits.mergeSort Edit.atMost)) [] := by
    refine takenIn_induct (Q := Q) proper (by simp [Q]) ?_
    intro seen i j e rest _ hready ht hq
    cases ht with
    | repeated => exact hq
    | accepted =>
      intro f hf
      obtain ⟨a, ha, hblocks⟩ := hq f hf
      exact ⟨a, List.mem_cons_of_mem _ ha, hblocks⟩
    | @joined last earlier new latest clash deletes =>
      intro f hf
      obtain ⟨a, ha, hstart, hblocks⟩ := hq f hf
      rw [latest] at ha hready
      rcases List.mem_cons.mp ha with rfl | ha
      · exact ⟨_, List.mem_cons_self, hstart, Edit.not_agrees_widen hblocks deletes
          (hready.proper a List.mem_cons_self) (Nat.le_max_left _ _)⟩
      · exact ⟨a, List.mem_cons_of_mem _ ha, hstart, hblocks⟩
    | @skipped last earlier new latest clash unmergeable =>
      intro f hf
      rcases List.mem_cons.mp hf with rfl | hf
      · have hlast : last ∈ i.accepted := latest ▸ List.mem_cons_self
        have hne : last ≠ f := fun hsame => new (hsame ▸ hlast)
        exact ⟨last, hlast, (hready.precedes last hlast f List.mem_cons_self).start_le,
          Edit.not_agrees_iff.mpr ⟨clash, hne, unmergeable⟩⟩
      · exact hq f hf
  rw [ofEdits_skipped, List.mem_reverse] at h
  simpa only [ofEdits_accepted, List.mem_reverse] using hrun e h

/-- If nothing is skipped, each edit is accepted or a deletion that lies in an accepted one. -/
theorem exists_accepted_of_skipped_eq_nil (proper : ∀ e ∈ edits, e.start ≤ e.stop)
    (hnone : (ofEdits edits).skipped = []) (he : e ∈ edits) :
    ∃ a ∈ (ofEdits edits).accepted, (a.start ≤ e.start ∧ e.stop ≤ a.stop) ∧
      (a = e ∨ a.isDeletion = true ∧ e.isDeletion = true) := by
  rcases (accounts_ofEdits proper).kept e (List.mem_mergeSort.mpr he) with
    haccepted | hskipped | ⟨hdeletes, a, ha, hdeletes', hencloses⟩
  · exact ⟨e, haccepted, ⟨Nat.le_refl _, Nat.le_refl _⟩, .inl rfl⟩
  · rw [hnone] at hskipped
    cases hskipped
  · exact ⟨a, ha, hencloses, .inr ⟨hdeletes', hdeletes⟩⟩

theorem agrees_of_skipped_eq_nil (proper : ∀ e ∈ edits, e.start ≤ e.stop)
    (hnone : (ofEdits edits).skipped = []) : ∀ e ∈ edits, ∀ f ∈ edits, e.Agrees f := by
  intro e he f hf hclash
  obtain ⟨a, ha, hea, hkind⟩ := exists_accepted_of_skipped_eq_nil proper hnone he
  obtain ⟨b, hb, hfb, hkind'⟩ := exists_accepted_of_skipped_eq_nil proper hnone hf
  rw [Edit.conflicts_iff] at hclash
  rcases eq_or_of_pairwise (apart_ofEdits proper) ha hb with rfl | hab | hba
  · rcases hkind with rfl | ⟨ha, he⟩ <;> rcases hkind' with rfl | ⟨ha', hf⟩
    · exact .inl rfl
    · exact .inr ⟨ha', hf⟩
    · exact .inr ⟨he, ha⟩
    · exact .inr ⟨he, hf⟩
  · omega
  · omega

theorem exists_prepareStrictly_iff : (∃ plan, prepareStrictly content edits = .ok plan) ↔
    (∀ e ∈ edits, e.Fits content) ∧ ∀ e ∈ edits, ∀ f ∈ edits, e.Agrees f := by
  constructor
  · rintro ⟨plan, hplan⟩
    obtain ⟨hplan, hnone⟩ := prepareStrictly_eq_ok_iff.mp hplan
    obtain ⟨hfits, rfl⟩ := prepare_eq_ok_iff.mp hplan
    exact ⟨hfits, agrees_of_skipped_eq_nil (fun e he => (hfits e he).start_le_stop) hnone⟩
  · rintro ⟨hfits, hagree⟩
    exact ⟨_, prepareStrictly_eq_ok hfits hagree⟩

/-- A skipped edit is found to conflict with an accepted one, the one that it was skipped for: an
accepted edit before that one stops where it starts at the latest. -/
theorem exists_find?_of_mem_skipped (proper : ∀ e ∈ edits, e.start ≤ e.stop)
    (h : e ∈ (ofEdits edits).skipped) :
    ∃ a, (ofEdits edits).accepted.find? (·.conflicts e) = some a ∧ ¬ a.Agrees e := by
  obtain ⟨b, hb, hstart, hblocks⟩ := exists_not_agrees_of_mem_skipped proper h
  have hclash := (Edit.not_agrees_iff.mp hblocks).1
  cases hfound : (ofEdits edits).accepted.find? (·.conflicts e) with
  | none => exact absurd hclash (List.find?_eq_none.mp hfound b hb)
  | some a =>
    refine ⟨a, rfl, ?_⟩
    obtain ⟨hclash', before, behind, hsplit, hfree⟩ := List.find?_eq_some_iff_append.mp hfound
    have hapart := apart_ofEdits proper
    rw [hsplit] at hb hapart
    rcases List.mem_append.mp hb with hb | hb
    · simpa [hclash] using hfree b hb
    · rcases List.mem_cons.mp hb with rfl | hb
      · exact hblocks
      · have hstop := (List.pairwise_cons.mp (List.pairwise_append.mp hapart).2.1).1 b hb
        rw [Edit.conflicts_iff] at hclash'
        omega

/-- An edit that does not fit is no conflict. -/
theorem fault?_ne_conflict : e.fault? content ≠ some (.conflict first second) := by
  unfold Edit.fault?
  split_ifs <;> simp

theorem prepare_ne_conflict : prepare content edits ≠ .error (.conflict first second) := by
  unfold prepare
  split
  · rename_i error hfault
    obtain ⟨e, -, hfault⟩ := List.exists_of_findSome?_eq_some hfault
    rintro ⟨⟩
    exact fault?_ne_conflict hfault
  · exact nofun

/-- The conflict that a strict plan fails for. -/
structure Clashes (plan : EditPlan) (first second : Edit) : Prop where
  /-- The first edit that would have to be skipped. -/
  skipped : plan.skipped.head? = some second
  /-- The first accepted edit that conflicts with it. -/
  found : plan.accepted.find? (·.conflicts second) = some first
  accepted : first ∈ plan.accepted
  conflicts : first.conflicts second = true
  differ : first ≠ second
  /-- The two could not have been joined. -/
  unmergeable : (first.isDeletion && second.isDeletion) = false

theorem exists_clashes_of_prepareStrictly
    (h : prepareStrictly content edits = .error (.conflict first second)) :
    ∃ plan, prepare content edits = .ok plan ∧ plan.Clashes first second := by
  unfold prepareStrictly at h
  cases hplan : prepare content edits with
  | error error =>
    rw [hplan] at h
    exact absurd (hplan.trans h) prepare_ne_conflict
  | ok plan =>
    rw [hplan] at h
    refine ⟨plan, rfl, ?_⟩
    obtain ⟨hfits, rfl⟩ := prepare_eq_ok_iff.mp hplan
    simp only [bind, Except.bind] at h
    split at h
    · cases h
    · rename_i skip skips hskipped
      have hmem : skip ∈ (ofEdits edits).skipped := by simp [hskipped]
      obtain ⟨a, hfound, hblocks⟩ :=
        exists_find?_of_mem_skipped (fun e he => (hfits e he).start_le_stop) hmem
      rw [hfound, Option.getD_some] at h
      obtain ⟨rfl, rfl⟩ := EditError.conflict.inj (Except.error.inj h)
      obtain ⟨hclash, hdiffer, hunmergeable⟩ := Edit.not_agrees_iff.mp hblocks
      exact ⟨by rw [hskipped]; rfl, hfound, List.mem_of_find?_eq_some hfound, hclash, hdiffer,
        hunmergeable⟩

/-- Edits make a strict plan if and only if each fits the content and any two that conflict are the
same or both deletions; their order does not count. If they fail for a conflict, it is one of the
first skipped edit and an accepted one. -/
theorem prepareStrictly_ok_iff_agree (content : Text) (edits : List Edit) :
    ((∃ plan, prepareStrictly content edits = .ok plan) ↔
      (∀ e ∈ edits, e.Fits content) ∧
        ∀ e ∈ edits, ∀ f ∈ edits, e.conflicts f = true →
          e = f ∨ e.isDeletion = true ∧ f.isDeletion = true) ∧
    (∀ edits' : List Edit, edits'.Perm edits →
      ((∃ plan, prepareStrictly content edits' = .ok plan) ↔
        ∃ plan, prepareStrictly content edits = .ok plan)) ∧
    ∀ first second, prepareStrictly content edits = .error (.conflict first second) →
      ∃ plan, prepare content edits = .ok plan ∧ plan.Clashes first second := by
  refine ⟨exists_prepareStrictly_iff, fun edits' hperm => ?_,
    fun _ _ => exists_clashes_of_prepareStrictly⟩
  rw [exists_prepareStrictly_iff, exists_prepareStrictly_iff]
  simp only [hperm.mem_iff]

/-- The replacement conflicts with one deletion only, and is reported with the deletion that two
were joined to. -/
theorem prepareStrictly_ok_iff_agree_three :
    let content : Text := ['a', 'b', 'c', 'd', 'e', 'f', 'g', 'h']
    let edits : List Edit := [⟨5, 7, ['x']⟩, ⟨3, 6, []⟩, ⟨1, 4, []⟩]
    prepareStrictly content edits = .error (.conflict ⟨1, 6, []⟩ ⟨5, 7, ['x']⟩) ∧
      Clashes ⟨[⟨1, 6, []⟩], [⟨5, 7, ['x']⟩], 1⟩ ⟨1, 6, []⟩ ⟨5, 7, ['x']⟩ := by
  intro content edits
  have hfails : prepareStrictly content edits = .error (.conflict ⟨1, 6, []⟩ ⟨5, 7, ['x']⟩) := by
    cbv
  have hplan : prepare content edits = .ok ⟨[⟨1, 6, []⟩], [⟨5, 7, ['x']⟩], 1⟩ := by cbv
  obtain ⟨plan, hplan', hclashes⟩ :=
    (prepareStrictly_ok_iff_agree content edits).2.2 _ _ hfails
  obtain rfl := Except.ok.inj (hplan.symm.trans hplan')
  exact ⟨hfails, hclashes⟩

end Tidymark.EditPlan
