import Mathlib
import Tidymark.Proofs.Edit.Plan

/-! # Applying plans

A plan is applied in one pass from left to right. That is the same as splicing its edits into the
content one at a time from the last to the first, where no splice moves what is still to be
spliced: what lies between the ranges stays as it is, in its order. -/
namespace Tidymark

/-- The text with the range of one edit replaced, if the range can be cut out of it. -/
def Edit.splice? (e : Edit) (t : Text) : Option Text :=
  if e.start ≤ e.stop then do
    let before ← t.take? e.start
    let behind ← t.drop? e.stop
    return before ++ e.replacement ++ behind
  else none

theorem Edit.splice?_append (e : Edit) {before removed behind : Text}
    (hstart : e.start = before.size) (hstop : e.stop = e.start + removed.size) :
    e.splice? (before ++ removed ++ behind) = some (before ++ e.replacement ++ behind) := by
  have htake : Text.take? e.start (before ++ removed ++ behind) = some before := by
    rw [hstart, List.append_assoc, Text.take?_size_append]
  have hdrop : Text.drop? e.stop (before ++ removed ++ behind) = some behind := by
    rw [hstop, hstart, ← Text.size_append, Text.drop?_size_append]
  rw [splice?, if_pos (by omega), htake, hdrop]
  rfl

namespace EditPlan

/-- `Turns n t edits out`: edits in their order turn the text `t`, which starts at the offset
`n`, into `out`. Each puts its replacement in the place of the bytes of its range, and what lies
between the ranges stays. -/
inductive Turns : Nat → Text → List Edit → Text → Prop
  | done (n : Nat) (rest : Text) : Turns n rest [] rest
  | edit {n : Nat} {e : Edit} {edits : List Edit} {gap removed rest out : Text}
      (hstart : e.start = n + gap.size) (hstop : e.stop = e.start + removed.size)
      (tail : Turns e.stop rest edits out) :
      Turns n (gap ++ removed ++ rest) (e :: edits) (gap ++ e.replacement ++ out)

variable {content before rest out : Text} {edits : List Edit} {plan : EditPlan}

/-- The pass from left to right, from a cursor behind `before` on. -/
theorem Turns.applyFrom (h : Turns before.size rest edits out) :
    applyFrom (before ++ rest) before.size edits = some out := by
  generalize hn : before.size = n at h
  induction h generalizing before with
  | done n rest =>
    subst hn
    exact Text.drop?_size_append before rest
  | @edit n e edits gap removed rest out hstart hstop tail ih =>
    subst hn
    have hgap : Text.slice? (before ++ (gap ++ removed ++ rest)) before.size e.start = some gap :=
      Text.slice?_eq_some_iff.mpr ⟨before, removed ++ rest, by simp, rfl, hstart.symm⟩
    have hsize : (before ++ gap ++ removed).size = e.stop := by
      simp only [Text.size_append]
      omega
    have hrest := ih hsize
    rw [show before ++ gap ++ removed ++ rest = before ++ (gap ++ removed ++ rest) by simp]
      at hrest
    rw [EditPlan.applyFrom, hgap, hrest]
    rfl

/-- One edit after another, from the last to the first, behind a text that no edit reaches. -/
theorem Turns.foldr_splice (h : Turns before.size rest edits out) :
    edits.foldr (fun e t => t.bind e.splice?) (some (before ++ rest)) = some (before ++ out) := by
  generalize hn : before.size = n at h
  induction h generalizing before with
  | done n rest => rfl
  | @edit n e edits gap removed rest out hstart hstop tail ih =>
    subst hn
    have hsize : (before ++ gap ++ removed).size = e.stop := by
      simp only [Text.size_append]
      omega
    have htail := ih hsize
    rw [List.foldr_cons, show before ++ (gap ++ removed ++ rest) = before ++ gap ++ removed ++ rest
      by simp, htail, Option.bind_some, e.splice?_append (by rw [hstart, Text.size_append]) hstop]
    simp

/-- Edits that follow one another and fit a content can be applied to what lies behind a cursor
before them. -/
theorem exists_turns (fits : ∀ e ∈ edits, e.Fits (before ++ rest))
    (apart : edits.Pairwise fun e f => e.stop ≤ f.start)
    (behind : ∀ e ∈ edits, before.size ≤ e.start) :
    ∃ out, Turns before.size rest edits out := by
  induction edits generalizing before rest with
  | nil => exact ⟨rest, .done _ _⟩
  | cons e edits ih =>
    have he := fits e (by simp)
    obtain ⟨hnext, apart⟩ := List.pairwise_cons.mp apart
    obtain ⟨gap, rest, rfl, hgap⟩ :=
      Text.exists_split_of_isBoundary he.start_boundary (behind e (by simp))
    have hstop : (before ++ gap ++ rest).isBoundary e.stop = true := by
      simpa using he.stop_boundary
    obtain ⟨removed, rest, rfl, hremoved⟩ := Text.exists_split_of_isBoundary hstop (by
      rw [Text.size_append, hgap]
      exact he.start_le_stop)
    rw [Text.size_append, hgap] at hremoved
    have hsize : (before ++ gap ++ removed).size = e.stop := by
      simp only [Text.size_append]
      omega
    obtain ⟨out, hout⟩ := @ih (before ++ gap ++ removed) rest
      (fun f hf => by simpa using fits f (by simp [hf])) apart
      (fun f hf => hsize ▸ hnext f hf)
    have hturns := Turns.edit hgap.symm hremoved.symm (hsize ▸ hout)
    exact ⟨_, by simpa using hturns⟩

/-- The edits of a plan made for a content turn it into what comes of applying the plan. -/
theorem turns_applyTo (h : prepare content edits = .ok plan) :
    plan.applyTo? content = some (plan.applyTo content) ∧
      Turns 0 content plan.accepted (plan.applyTo content) := by
  obtain ⟨hfits, rfl⟩ := prepare_eq_ok_iff.mp h
  obtain ⟨out, hout⟩ := @exists_turns [] content (ofEdits edits).accepted
    (wellFormed_ofEdits hfits).fits (apart_ofEdits fun e he => (hfits e he).start_le_stop)
    (fun _ _ => Nat.zero_le _)
  have happly : (ofEdits edits).applyTo? content = some out := hout.applyFrom
  have hout' : (ofEdits edits).applyTo content = out := by rw [applyTo, happly, Option.getD_some]
  rw [hout']
  exact ⟨happly, hout⟩

theorem applyTo_nil (content : Text) :
    prepare content [] = .ok ⟨[], [], 0⟩ ∧ (⟨[], [], 0⟩ : EditPlan).applyTo content = content := by
  constructor
  · simp [prepare_eq_ok_iff, ofEdits]
  · simp [applyTo, applyTo?, applyFrom]

/-- A plan made for a content can always be cut out of it. Applying it in one pass is splicing its
edits into the content from the last to the first, so that all bytes outside of their ranges stay,
in order; without edits the content stays as it is. -/
theorem applyTo_eq_splices (h : prepare content edits = .ok plan) :
    plan.applyTo? content = some (plan.applyTo content) ∧
      plan.accepted.foldr (fun e t => t.bind e.splice?) (some content) =
        some (plan.applyTo content) ∧
      Turns 0 content plan.accepted (plan.applyTo content) ∧
      (edits = [] → plan.applyTo content = content) := by
  obtain ⟨happly, hturns⟩ := turns_applyTo h
  refine ⟨happly, @Turns.foldr_splice [] _ _ _ hturns, hturns, ?_⟩
  rintro rfl
  obtain ⟨hnil, hsame⟩ := applyTo_nil content
  obtain rfl : ⟨[], [], 0⟩ = plan := Except.ok.inj (hnil.symm.trans h)
  exact hsame

/-- Touching insertions stay at both edges of a replacement, and two deletions become one. -/
theorem applyTo_eq_splices_touching :
    prepare ['h', 'é', 'l', 'l', 'o', ' ', 'b']
        [⟨5, 7, []⟩, ⟨3, 3, [']']⟩, ⟨4, 6, []⟩, ⟨1, 3, ['e']⟩, ⟨1, 1, ['[']⟩] =
      .ok ⟨[⟨1, 1, ['[']⟩, ⟨1, 3, ['e']⟩, ⟨3, 3, [']']⟩, ⟨4, 7, []⟩], [], 1⟩ ∧
    [⟨1, 1, ['[']⟩, ⟨1, 3, ['e']⟩, ⟨3, 3, [']']⟩, ⟨4, 7, []⟩].foldr
        (fun (e : Edit) t => t.bind e.splice?) (some ['h', 'é', 'l', 'l', 'o', ' ', 'b']) =
      some ['h', '[', 'e', ']', 'l', 'b'] := by
  have hplan : prepare ['h', 'é', 'l', 'l', 'o', ' ', 'b']
      [⟨5, 7, []⟩, ⟨3, 3, [']']⟩, ⟨4, 6, []⟩, ⟨1, 3, ['e']⟩, ⟨1, 1, ['[']⟩] =
      .ok ⟨[⟨1, 1, ['[']⟩, ⟨1, 3, ['e']⟩, ⟨3, 3, [']']⟩, ⟨4, 7, []⟩], [], 1⟩ := by cbv
  have hsplices := (applyTo_eq_splices hplan).2.1
  have hresult : applyTo ⟨[⟨1, 1, ['[']⟩, ⟨1, 3, ['e']⟩, ⟨3, 3, [']']⟩, ⟨4, 7, []⟩], [], 1⟩
      ['h', 'é', 'l', 'l', 'o', ' ', 'b'] = ['h', '[', 'e', ']', 'l', 'b'] := by decide
  exact ⟨hplan, hsplices.trans (congrArg some hresult)⟩

end EditPlan
end Tidymark
