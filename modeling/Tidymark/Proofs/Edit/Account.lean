import Mathlib
import Tidymark.Proofs.Edit.Plan

/-! # Every edit is accounted for

Edits are taken in by the order of their ranges, and each becomes part of an accepted edit or is
skipped. The invariant ties the edits seen so far to all that is kept of them. It rests on one fact:
an accepted edit reaches as far as one of the edits that it was made of, so what conflicts with it
conflicts with that edit. -/
namespace Tidymark.EditPlan

open Intake

/-- The bytes of `a` are those of a chain of deletions, the latest first, each of which overlaps the
next. -/
structure Covers (edits chain : List Edit) (a : Edit) : Prop where
  mem : ∀ d ∈ chain, d ∈ edits
  deletes : ∀ d ∈ chain, d.isDeletion = true
  overlapping : chain.IsChain fun d e => d.conflicts e = true
  union : ∀ n, a.start ≤ n ∧ n < a.stop ↔ ∃ d ∈ chain, d.start ≤ n ∧ n < d.stop
  stop : chain.head?.map Edit.stop = some a.stop

/-- What became of edits that were taken in, in the order `seen`. -/
structure Accounts (seen accepted skipped : List Edit) (merged : Nat) : Prop where
  total : accepted.length + skipped.length + merged = seen.length
  /-- No edit is lost. -/
  kept : ∀ e ∈ seen, e ∈ accepted ∨ e ∈ skipped ∨ e.isDeletion = true ∧
    ∃ a ∈ accepted, a.isDeletion = true ∧ a.start ≤ e.start ∧ e.stop ≤ a.stop
  /-- No edit is invented. -/
  origin : ∀ a ∈ accepted, a ∈ seen ∨ a.isDeletion = true ∧ ∃ chain, Covers seen chain a
  /-- No edit is skipped without a reason. -/
  reason : ∀ e ∈ skipped, (∃ a ∈ accepted, a.conflicts e = true) ∧
    ∃ before after, seen = before ++ e :: after ∧ ∃ f ∈ before, f.conflicts e = true
  /-- An edit that no other edit conflicts with stays as it is. -/
  free : ∀ e ∈ seen, (∀ f ∈ seen, f.conflicts e = true → f = e) → e ∈ accepted

variable {seen accepted skipped earlier chain : List Edit} {merged : Nat} {a d e last : Edit}

namespace Covers

theorem self (hd : d ∈ seen) (hdeletes : d.isDeletion = true) : Covers seen [d] d where
  mem := by simpa using hd
  deletes := by simpa using hdeletes
  overlapping := .singleton d
  union := by simp
  stop := rfl

theorem mono (h : Covers seen chain a) (e : Edit) : Covers (seen ++ [e]) chain a :=
  { h with mem := fun d hd => List.mem_append_left _ (h.mem d hd) }

theorem exists_latest (h : Covers seen chain a) :
    ∃ latest earlier, chain = latest :: earlier ∧ latest ∈ seen ∧ latest.stop = a.stop := by
  cases chain with
  | nil => cases h.stop
  | cons latest earlier =>
    exact ⟨latest, earlier, rfl, h.mem latest (by simp), Option.some.inj h.stop⟩

/-- A deletion that overlaps the latest of a chain and reaches further makes the chain longer. -/
theorem widen (h : Covers seen chain a) (hbehind : ∀ d ∈ seen, d.start ≤ e.start)
    (hdeletes : e.isDeletion = true) (hstart : a.start ≤ e.start) (hclash : a.conflicts e = true)
    (hfurther : a.stop ≤ e.stop) :
    Covers (seen ++ [e]) (e :: chain) ⟨a.start, e.stop, a.replacement⟩ := by
  obtain ⟨latest, earlier, rfl, hlatest, hstop⟩ := h.exists_latest
  have hbefore := hbehind latest hlatest
  have hne := (Edit.isDeletion_iff.mp hdeletes).1
  rw [Edit.conflicts_iff] at hclash
  refine ⟨?_, List.forall_mem_cons.mpr ⟨hdeletes, h.deletes⟩, ?_, fun n => ?_, rfl⟩
  · exact List.forall_mem_cons.mpr ⟨by simp, (h.mono e).mem⟩
  · refine .cons_cons ?_ h.overlapping
    rw [Edit.conflicts_iff]
    omega
  · rw [List.exists_mem_cons_iff, ← h.union n]
    simp only
    omega

end Covers

namespace Accounts

/-- An accepted edit that conflicts with the next edit reaches as far as one of those it was made
of, and that one conflicts, too. -/
theorem exists_conflict (h : Accounts seen accepted skipped merged)
    (hprec : ∀ d ∈ seen, d.Precedes e) (proper : e.start ≤ e.stop) (ha : a ∈ accepted)
    (hclash : a.conflicts e = true) : ∃ d ∈ seen, d.conflicts e = true := by
  have hreach : ∃ d ∈ seen, d.stop = a.stop := by
    rcases h.origin a ha with ha | ⟨-, chain, hcovers⟩
    · exact ⟨a, ha, rfl⟩
    · obtain ⟨latest, -, -, hlatest, hstop⟩ := hcovers.exists_latest
      exact ⟨latest, hlatest, hstop⟩
  obtain ⟨d, hd, hstop⟩ := hreach
  refine ⟨d, hd, ?_⟩
  have hbefore := hprec d hd
  unfold Edit.Precedes at hbefore
  rw [Edit.conflicts_iff] at hclash ⊢
  omega

theorem origin_mono (h : Accounts seen accepted skipped merged) (e : Edit) (ha : a ∈ accepted) :
    a ∈ seen ++ [e] ∨ a.isDeletion = true ∧ ∃ chain, Covers (seen ++ [e]) chain a := by
  rcases h.origin a ha with ha | ⟨hdeletes, chain, hcovers⟩
  · exact .inl (List.mem_append_left _ ha)
  · exact .inr ⟨hdeletes, chain, hcovers.mono e⟩

theorem reason_mono (h : Accounts seen accepted skipped merged) (d : Edit) (he : e ∈ skipped) :
    ∃ before after, seen ++ [d] = before ++ e :: after ∧ ∃ f ∈ before, f.conflicts e = true := by
  obtain ⟨-, before, after, rfl, hf⟩ := h.reason e he
  exact ⟨before, after ++ [d], by simp, hf⟩

/-- What stays as it is among more edits stays as it is among fewer. -/
theorem free_of_free_concat (h : Accounts seen accepted skipped merged) (he : e ∈ seen)
    (hfree : ∀ f ∈ seen ++ [d], f.conflicts e = true → f = e) : e ∈ accepted :=
  h.free e he fun f hf => hfree f (List.mem_append_left _ hf)

theorem repeated (h : Accounts seen accepted skipped merged) (known : e ∈ accepted) :
    Accounts (seen ++ [e]) accepted skipped (merged + 1) where
  total := by
    have htotal := h.total
    simp only [List.length_append, List.length_singleton]
    omega
  kept f hf := by
    rcases List.mem_append.mp hf with hf | hf
    · exact h.kept f hf
    · obtain rfl := List.mem_singleton.mp hf
      exact .inl known
  origin a ha := h.origin_mono e ha
  reason f hf := ⟨(h.reason f hf).1, h.reason_mono e hf⟩
  free f hf hfree := by
    rcases List.mem_append.mp hf with hf | hf
    · exact h.free_of_free_concat hf hfree
    · obtain rfl := List.mem_singleton.mp hf
      exact known

theorem accept (h : Accounts seen accepted skipped merged) (e : Edit) :
    Accounts (seen ++ [e]) (e :: accepted) skipped merged where
  total := by
    have htotal := h.total
    simp only [List.length_append, List.length_cons, List.length_nil]
    omega
  kept f hf := by
    rcases List.mem_append.mp hf with hf | hf
    · rcases h.kept f hf with hf | hf | ⟨hdeletes, a, ha, hencloses⟩
      · exact .inl (List.mem_cons_of_mem _ hf)
      · exact .inr (.inl hf)
      · exact .inr (.inr ⟨hdeletes, a, List.mem_cons_of_mem _ ha, hencloses⟩)
    · exact .inl (List.mem_cons.mpr (.inl (List.mem_singleton.mp hf)))
  origin a ha := by
    rcases List.mem_cons.mp ha with rfl | ha
    · exact .inl (by simp)
    · exact h.origin_mono e ha
  reason f hf := by
    obtain ⟨⟨a, ha, hclash⟩, -⟩ := h.reason f hf
    exact ⟨⟨a, List.mem_cons_of_mem _ ha, hclash⟩, h.reason_mono e hf⟩
  free f hf hfree := by
    rcases List.mem_append.mp hf with hf | hf
    · exact List.mem_cons_of_mem _ (h.free_of_free_concat hf hfree)
    · exact List.mem_cons.mpr (.inl (List.mem_singleton.mp hf))

theorem skip (h : Accounts seen accepted skipped merged) (hprec : ∀ d ∈ seen, d.Precedes e)
    (proper : e.start ≤ e.stop) (new : e ∉ accepted) (ha : a ∈ accepted)
    (hclash : a.conflicts e = true) : Accounts (seen ++ [e]) accepted (e :: skipped) merged := by
  obtain ⟨d, hd, hconflict⟩ := h.exists_conflict hprec proper ha hclash
  refine ⟨?_, fun f hf => ?_, fun a ha => h.origin_mono e ha, fun f hf => ?_,
    fun f hf hfree => ?_⟩
  · have htotal := h.total
    simp only [List.length_append, List.length_cons, List.length_nil]
    omega
  · rcases List.mem_append.mp hf with hf | hf
    · rcases h.kept f hf with hf | hf | hf
      · exact .inl hf
      · exact .inr (.inl (List.mem_cons_of_mem _ hf))
      · exact .inr (.inr hf)
    · exact .inr (.inl (List.mem_cons.mpr (.inl (List.mem_singleton.mp hf))))
  · rcases List.mem_cons.mp hf with rfl | hf
    · exact ⟨⟨a, ha, hclash⟩, seen, [], rfl, d, hd, hconflict⟩
    · exact ⟨(h.reason f hf).1, h.reason_mono e hf⟩
  · rcases List.mem_append.mp hf with hf | hf
    · exact h.free_of_free_concat hf hfree
    · obtain rfl := List.mem_singleton.mp hf
      obtain rfl := hfree d (List.mem_append_left _ hd) hconflict
      exact absurd (h.free_of_free_concat hd hfree) new

theorem join (h : Accounts seen (last :: earlier) skipped merged)
    (hprec : ∀ d ∈ seen, d.Precedes e) (proper : e.start ≤ e.stop) (hstart : last.start ≤ e.start)
    (new : e ∉ last :: earlier) (hclash : last.conflicts e = true)
    (deletes : last.isDeletion = true) (deletes' : e.isDeletion = true) :
    Accounts (seen ++ [e]) (⟨last.start, max last.stop e.stop, last.replacement⟩ :: earlier)
      skipped (merged + 1) := by
  obtain ⟨d, hd, hconflict⟩ := h.exists_conflict hprec proper (by simp) hclash
  have hdeletion : Edit.isDeletion ⟨last.start, max last.stop e.stop, last.replacement⟩ = true := by
    rw [Edit.conflicts_iff] at hclash
    exact Edit.isDeletion_widen deletes (by omega) (Nat.le_max_left _ _)
  have hcovers : ∃ chain, Covers seen chain last := by
    rcases h.origin last (by simp) with hlast | ⟨-, hchain⟩
    · exact ⟨_, .self hlast deletes⟩
    · exact hchain
  obtain ⟨chain, hcovers⟩ := hcovers
  refine ⟨?_, fun f hf => ?_, fun a ha => ?_, fun f hf => ?_, fun f hf hfree => ?_⟩
  · have htotal := h.total
    simp only [List.length_append, List.length_cons, List.length_nil] at htotal ⊢
    omega
  · rcases List.mem_append.mp hf with hf | hf
    · rcases h.kept f hf with hf | hf | ⟨hfdeletes, a, ha, hadeletes, hencloses⟩
      · rcases List.mem_cons.mp hf with rfl | hf
        · exact .inr (.inr ⟨deletes, _, List.mem_cons_self, hdeletion, Nat.le_refl _,
            Nat.le_max_left _ _⟩)
        · exact .inl (List.mem_cons_of_mem _ hf)
      · exact .inr (.inl hf)
      · rcases List.mem_cons.mp ha with rfl | ha
        · exact .inr (.inr ⟨hfdeletes, _, List.mem_cons_self, hdeletion, hencloses.1,
            hencloses.2.trans (Nat.le_max_left _ _)⟩)
        · exact .inr (.inr ⟨hfdeletes, a, List.mem_cons_of_mem _ ha, hadeletes, hencloses⟩)
    · obtain rfl := List.mem_singleton.mp hf
      exact .inr (.inr ⟨deletes', _, List.mem_cons_self, hdeletion, hstart, Nat.le_max_right _ _⟩)
  · rcases List.mem_cons.mp ha with rfl | ha
    · rcases Nat.le_total e.stop last.stop with hle | hle
      · rw [Nat.max_eq_left hle] at hdeletion ⊢
        exact .inr ⟨hdeletion, chain, hcovers.mono e⟩
      · rw [Nat.max_eq_right hle] at hdeletion ⊢
        exact .inr ⟨hdeletion, _, hcovers.widen (fun d hd => (hprec d hd).start_le) deletes'
          hstart hclash hle⟩
    · exact h.origin_mono e (List.mem_cons_of_mem _ ha)
  · obtain ⟨⟨a, ha, hconflict⟩, -⟩ := h.reason f hf
    refine ⟨?_, h.reason_mono e hf⟩
    rcases List.mem_cons.mp ha with rfl | ha
    · refine ⟨_, List.mem_cons_self, ?_⟩
      rw [Edit.conflicts_iff] at hconflict ⊢
      simp only
      omega
    · exact ⟨a, List.mem_cons_of_mem _ ha, hconflict⟩
  · rcases List.mem_append.mp hf with hf | hf
    · rcases List.mem_cons.mp (h.free_of_free_concat hf hfree) with rfl | hf
      · rw [Edit.conflicts_comm] at hclash
        exact absurd (hfree e (by simp) hclash ▸ List.mem_cons_self) new
      · exact List.mem_cons_of_mem _ hf
    · obtain rfl := List.mem_singleton.mp hf
      obtain rfl := hfree d (List.mem_append_left _ hd) hconflict
      exact absurd (h.free_of_free_concat hd hfree) new

/-- The order in which edits are listed does not count. -/
theorem reverse (h : Accounts seen accepted skipped merged) :
    Accounts seen accepted.reverse skipped.reverse merged where
  total := by simpa using h.total
  kept := by simpa using h.kept
  origin := by simpa using h.origin
  reason := by simpa using h.reason
  free := by simpa using h.free

end Accounts

/-- Taking in one more edit accounts for it. -/
theorem Intake.Takes.accounts {i j : Intake} {rest : List Edit} (ht : Takes i e j)
    (hready : Ready i.accepted (e :: rest)) (hprec : ∀ d ∈ seen, d.Precedes e)
    (h : Accounts seen i.accepted i.skipped i.merged) :
    Accounts (seen ++ [e]) j.accepted j.skipped j.merged := by
  have proper := hready.restProper e (by simp)
  cases ht with
  | repeated known => exact h.repeated known
  | accepted => exact h.accept e
  | @joined last earlier new latest clash deletes deletes' =>
    rw [latest] at h hready new
    have hstart := (hready.precedes last (by simp) e (by simp)).start_le
    exact h.join hprec proper hstart new clash deletes deletes'
  | @skipped last earlier new latest clash =>
    exact h.skip hprec proper new (by simp [latest]) clash

theorem accounts_ofEdits {edits : List Edit} (proper : ∀ e ∈ edits, e.start ≤ e.stop) :
    Accounts (edits.mergeSort Edit.atMost) (ofEdits edits).accepted (ofEdits edits).skipped
      (ofEdits edits).merged := by
  have hsorted : (edits.mergeSort Edit.atMost).Pairwise Edit.Precedes :=
    (Edit.pairwise_mergeSort_atMost edits).imp Edit.precedes_of_atMost
  have hnone : Accounts [] [] [] 0 :=
    ⟨rfl, by simp, by simp, by simp, by simp⟩
  let Q : List Edit → Intake → List Edit → Prop := fun seen i _ =>
    Accounts seen i.accepted i.skipped i.merged
  have hrun : Q (edits.mergeSort Edit.atMost) (takenIn (edits.mergeSort Edit.atMost)) [] := by
    refine takenIn_induct (Q := Q) proper hnone ?_
    intro seen i j e rest hsplit hready ht h
    have hprec : ∀ d ∈ seen, d.Precedes e := fun d hd =>
      (List.pairwise_append.mp (hsplit ▸ hsorted)).2.2 d hd e (by simp)
    exact ht.accounts hready hprec h
  exact Accounts.reverse hrun

/-- Edits that fit a content are made into a plan that accounts for them all: each is accepted, part
of an accepted deletion or skipped for a conflict with an edit before it, and nothing else is
accepted. -/
theorem accounts_prepare {content : Text} {edits : List Edit}
    (hfits : ∀ e ∈ edits, e.Fits content) :
    ∃ plan, prepare content edits = .ok plan ∧
      Accounts (edits.mergeSort Edit.atMost) plan.accepted plan.skipped plan.merged :=
  ⟨ofEdits edits, prepare_eq_ok_iff.mpr ⟨hfits, rfl⟩,
    accounts_ofEdits fun e he => (hfits e he).start_le_stop⟩

/-- Two deletions become one, which a replacement conflicts with; one insertion stands there
twice. -/
theorem accounts_prepare_six :
    let content : Text := ['a', 'b', 'c', 'd', 'e', 'f', 'g', 'h', 'i', 'j']
    let edits : List Edit :=
      [⟨9, 9, ['z']⟩, ⟨3, 6, []⟩, ⟨5, 7, ['x']⟩, ⟨1, 4, []⟩, ⟨8, 9, ['y']⟩, ⟨9, 9, ['z']⟩]
    let accepted : List Edit := [⟨1, 6, []⟩, ⟨8, 9, ['y']⟩, ⟨9, 9, ['z']⟩]
    prepare content edits = .ok ⟨accepted, [⟨5, 7, ['x']⟩], 2⟩ ∧
      Accounts (edits.mergeSort Edit.atMost) accepted [⟨5, 7, ['x']⟩] 2 := by
  intro content edits accepted
  have hplan : prepare content edits = .ok ⟨accepted, [⟨5, 7, ['x']⟩], 2⟩ := by cbv
  obtain ⟨plan, hplan', haccounts⟩ := accounts_prepare (prepare_eq_ok_iff.mp hplan).1
  obtain rfl := Except.ok.inj (hplan.symm.trans hplan')
  exact ⟨hplan, haccounts⟩

end Tidymark.EditPlan
