import Tidymark.Proofs.Edit.Application
import Tidymark.Proofs.Edit.Strictness
import Tidymark.Text.Utf8

/-! # Plans do not depend on the order of edits

Edits are sorted before they are taken in, so their order only counts between edits of one range,
and not even there if these are the same. Of deletions a plan skips none, in whatever order they
come and however often. What it cuts out of a content are the bytes of all of them: each deletion
lies in an accepted one, and the bytes of an accepted one are those of a chain of deletions. -/
namespace Tidymark

/-- Whether the range of one of the edits holds the byte at an offset. -/
def covers (edits : List Edit) (offset : Nat) : Bool := edits.any fun e => e.span.contains offset

/-- What is left of bytes, the first of them at the offset `n`, without those that edits cover. -/
def uncovered (edits : List Edit) (n : Nat) (bytes : List UInt8) : List UInt8 :=
  ((bytes.zipIdx n).filter fun b => !covers edits b.2).map Prod.fst

section
variable {edits edits' : List Edit} {n : Nat} {bytes : List UInt8}

theorem covers_iff {offset : Nat} :
    covers edits offset = true ↔ ∃ e ∈ edits, e.start ≤ offset ∧ offset < e.stop := by
  simp [covers, Edit.span]

theorem uncovered_append (edits : List Edit) (n : Nat) (before behind : List UInt8) :
    uncovered edits n (before ++ behind) =
      uncovered edits n before ++ uncovered edits (n + before.length) behind := by
  simp [uncovered, List.zipIdx_append]

theorem uncovered_congr (h : ∀ i, n ≤ i → i < n + bytes.length → covers edits i = covers edits' i) :
    uncovered edits n bytes = uncovered edits' n bytes := by
  refine congrArg _ (List.filter_congr fun b hb => ?_)
  obtain ⟨hn, hlt, -⟩ := List.mem_zipIdx hb
  rw [h b.2 hn hlt]

theorem uncovered_eq_self (h : ∀ i, n ≤ i → i < n + bytes.length → covers edits i = false) :
    uncovered edits n bytes = bytes := by
  have hall : (bytes.zipIdx n).filter (fun b => !covers edits b.2) = bytes.zipIdx n := by
    refine List.filter_eq_self.mpr fun b hb => ?_
    obtain ⟨hn, hlt, -⟩ := List.mem_zipIdx hb
    rw [h b.2 hn hlt, Bool.not_false]
  rw [uncovered, hall, List.zipIdx_map_fst]

theorem uncovered_eq_nil (h : ∀ i, n ≤ i → i < n + bytes.length → covers edits i = true) :
    uncovered edits n bytes = [] := by
  refine List.map_eq_nil_iff.mpr (List.filter_eq_nil_iff.mpr fun b hb => ?_)
  obtain ⟨hn, hlt, -⟩ := List.mem_zipIdx hb
  simp [h b.2 hn hlt]

end

namespace EditPlan

variable {content out t : Text} {n : Nat} {edits deletions : List Edit}

theorem Turns.start_le (h : Turns n t edits out) : ∀ e ∈ edits, n ≤ e.start := by
  induction h with
  | done => exact fun _ he => absurd he List.not_mem_nil
  | edit hstart hstop tail ih =>
    intro f hf
    rcases List.mem_cons.mp hf with rfl | hf
    · omega
    · have hnext := ih f hf
      omega

/-- Edits that put in nothing leave the bytes that none of them covers. -/
theorem Turns.encode_eq (h : Turns n t edits out) (hempty : ∀ e ∈ edits, e.replacement = []) :
    Text.encode out = uncovered edits n (Text.encode t) := by
  induction h with
  | done n rest => exact (uncovered_eq_self fun _ _ _ => rfl).symm
  | @edit n e edits gap removed rest out hstart hstop tail ih =>
    obtain ⟨he, hempty⟩ := List.forall_mem_cons.mp hempty
    have hbehind := tail.start_le
    have hgap : uncovered (e :: edits) n (Text.encode gap) = Text.encode gap := by
      refine uncovered_eq_self fun i _ hlt => Bool.eq_false_iff.mpr fun hcovers => ?_
      obtain ⟨f, hf, hi⟩ := covers_iff.mp hcovers
      rw [Text.length_encode] at hlt
      rcases List.mem_cons.mp hf with rfl | hf
      · omega
      · have hnext := hbehind f hf
        omega
    have hremoved : uncovered (e :: edits) e.start (Text.encode removed) = [] := by
      refine uncovered_eq_nil fun i hle hlt => covers_iff.mpr ⟨e, by simp, hle, ?_⟩
      rwa [Text.length_encode, ← hstop] at hlt
    have hrest : uncovered (e :: edits) e.stop (Text.encode rest) =
        uncovered edits e.stop (Text.encode rest) := by
      refine uncovered_congr fun i hle _ => ?_
      have hbefore : e.span.contains i = false := by
        rw [← Bool.not_eq_true, Span.contains_eq_true]
        simp only [Edit.span]
        omega
      rw [covers, List.any_cons, hbefore, Bool.false_or, covers]
    rw [he, List.append_nil, Text.encode_append, ih hempty, Text.encode_append, Text.encode_append,
      uncovered_append, uncovered_append, List.length_append, Text.length_encode,
      Text.length_encode, ← Nat.add_assoc, ← hstart, ← hstop, hgap, hremoved, hrest,
      List.append_nil]

/-- Sorting forgets the order of edits that only share a range if they are the same. -/
theorem ofEdits_eq_of_perm {edits' : List Edit} (hperm : edits.Perm edits')
    (hsame : ∀ e ∈ edits, ∀ f ∈ edits, e.span = f.span → e = f) :
    ofEdits edits = ofEdits edits' := by
  have hsorted : edits.mergeSort Edit.atMost = edits'.mergeSort Edit.atMost := by
    refine mergeSort_eq_of_perm Edit.atMost_trans Edit.atMost_total hperm
      fun e he f hf hef hfe => hsame e he f hf ?_
    rw [Edit.atMost_iff] at hef hfe
    simp only [Edit.span, Span.mk.injEq]
    omega
  rw [ofEdits, ofEdits, hsorted]

theorem agrees_of_deletions (hdeletes : ∀ d ∈ deletions, d.isDeletion = true) :
    ∀ e ∈ deletions, ∀ f ∈ deletions, e.Agrees f :=
  fun e he f hf _ => .inr ⟨hdeletes e he, hdeletes f hf⟩

/-- The accepted edits of deletions are deletions. -/
theorem isDeletion_of_mem_accepted (proper : ∀ d ∈ deletions, d.start ≤ d.stop)
    (hdeletes : ∀ d ∈ deletions, d.isDeletion = true) :
    ∀ a ∈ (ofEdits deletions).accepted, a.isDeletion = true := by
  intro a ha
  rcases (accounts_ofEdits proper).origin a ha with ha | ⟨hdeletion, -⟩
  · exact hdeletes a (List.mem_mergeSort.mp ha)
  · exact hdeletion

theorem covers_accepted (proper : ∀ d ∈ deletions, d.start ≤ d.stop)
    (hdeletes : ∀ d ∈ deletions, d.isDeletion = true) (i : Nat) :
    covers (ofEdits deletions).accepted i = covers deletions i := by
  rw [Bool.eq_iff_iff, covers_iff, covers_iff]
  constructor
  · rintro ⟨a, ha, hi⟩
    rcases (accounts_ofEdits proper).origin a ha with ha | ⟨-, chain, hcovers⟩
    · exact ⟨a, List.mem_mergeSort.mp ha, hi⟩
    · obtain ⟨d, hd, hi⟩ := (hcovers.union i).mp hi
      exact ⟨d, List.mem_mergeSort.mp (hcovers.mem d hd), hi⟩
  · rintro ⟨d, hd, hi⟩
    obtain ⟨a, ha, hencloses, -⟩ := exists_accepted_of_skipped_eq_nil proper
      (skipped_ofEdits proper (agrees_of_deletions hdeletes)) hd
    exact ⟨a, ha, by omega⟩

theorem encode_applyTo_of_deletions (hfits : ∀ d ∈ deletions, d.Fits content)
    (hdeletes : ∀ d ∈ deletions, d.isDeletion = true) :
    Text.encode ((ofEdits deletions).applyTo content) =
      uncovered deletions 0 (Text.encode content) := by
  have proper : ∀ d ∈ deletions, d.start ≤ d.stop := fun d hd => (hfits d hd).start_le_stop
  have hturns := (turns_applyTo (prepare_eq_ok_iff.mpr ⟨hfits, rfl⟩)).2
  have hempty : ∀ a ∈ (ofEdits deletions).accepted, a.replacement = [] := fun a ha =>
    (Edit.isDeletion_iff.mp (isDeletion_of_mem_accepted proper hdeletes a ha)).2
  rw [hturns.encode_eq hempty]
  exact uncovered_congr fun i _ _ => covers_accepted proper hdeletes i

/-- Edits that fit a content lead to one plan in whatever order they come, if those of one range are
the same. Deletions lead to a plan that skips none of them and leaves the bytes that none covers. -/
theorem prepare_order_free (content : Text) :
    (∀ edits edits' : List Edit, edits.Perm edits' → (∀ e ∈ edits, e.Fits content) →
      (∀ e ∈ edits, ∀ f ∈ edits, e.span = f.span → e = f) →
      ∃ plan, prepare content edits = .ok plan ∧ prepare content edits' = .ok plan) ∧
    ∀ deletions : List Edit, (∀ d ∈ deletions, d.Fits content ∧ d.isDeletion = true) →
      ∃ plan, prepare content deletions = .ok plan ∧ plan.skipped = [] ∧
        Text.encode (plan.applyTo content) = uncovered deletions 0 (Text.encode content) := by
  refine ⟨fun edits edits' hperm hfits hsame => ?_, fun deletions hdeletions => ?_⟩
  · have hfits' : ∀ e ∈ edits', e.Fits content := fun e he => hfits e (hperm.mem_iff.mpr he)
    exact ⟨ofEdits edits, prepare_eq_ok_iff.mpr ⟨hfits, rfl⟩,
      prepare_eq_ok_iff.mpr ⟨hfits', (ofEdits_eq_of_perm hperm hsame).symm⟩⟩
  · have hfits : ∀ d ∈ deletions, d.Fits content := fun d hd => (hdeletions d hd).1
    have hdeletes : ∀ d ∈ deletions, d.isDeletion = true := fun d hd => (hdeletions d hd).2
    exact ⟨ofEdits deletions, prepare_eq_ok_iff.mpr ⟨hfits, rfl⟩,
      skipped_ofEdits (fun d hd => (hfits d hd).start_le_stop) (agrees_of_deletions hdeletes),
      encode_applyTo_of_deletions hfits hdeletes⟩

/-- Four edits, two of them the same, in two orders; and five deletions that overlap, touch or
repeat one another, around a character of two bytes. -/
theorem prepare_order_free_four :
    let content : Text := ['a', 'é', 'b', 'c', 'd', 'e', 'f']
    let edits : List Edit := [⟨3, 6, []⟩, ⟨0, 0, ['x']⟩, ⟨5, 7, ['y']⟩, ⟨0, 0, ['x']⟩]
    let edits' : List Edit := [⟨5, 7, ['y']⟩, ⟨0, 0, ['x']⟩, ⟨0, 0, ['x']⟩, ⟨3, 6, []⟩]
    let deletions : List Edit := [⟨4, 6, []⟩, ⟨1, 3, []⟩, ⟨5, 7, []⟩, ⟨1, 3, []⟩, ⟨3, 4, []⟩]
    (∃ plan, prepare content edits = .ok plan ∧ prepare content edits' = .ok plan) ∧
      ∃ plan, prepare content deletions = .ok plan ∧ plan.skipped = [] ∧
        Text.encode (plan.applyTo content) = [97, 102] := by
  intro content edits edits' deletions
  have hplan : prepare content edits =
      .ok ⟨[⟨0, 0, ['x']⟩, ⟨3, 6, []⟩], [⟨5, 7, ['y']⟩], 1⟩ := by cbv
  have hplan' : prepare content deletions =
      .ok ⟨[⟨1, 3, []⟩, ⟨3, 4, []⟩, ⟨4, 7, []⟩], [], 2⟩ := by cbv
  have hdeletes : ∀ d ∈ deletions, d.isDeletion = true := by decide
  have hleft : uncovered deletions 0 (Text.encode content) = [97, 102] := by cbv
  obtain ⟨horder, hdeletions⟩ := prepare_order_free content
  refine ⟨horder edits edits' (by decide) (prepare_eq_ok_iff.mp hplan).1 (by decide), ?_⟩
  exact hleft ▸ hdeletions deletions fun d hd =>
    ⟨(prepare_eq_ok_iff.mp hplan').1 d hd, hdeletes d hd⟩

end EditPlan
end Tidymark
