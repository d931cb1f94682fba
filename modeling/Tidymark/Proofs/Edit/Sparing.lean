import Tidymark.Proofs.Edit.Application
import Tidymark.Proofs.Text.Passage

/-! # Passages that edits spare

An edit spares a passage if its range shares no byte with it and if it puts nothing strictly inside.
Passages that all edits spare stay in one piece and in their order. -/
namespace Tidymark

/-- The edit lies before the passage or behind it. -/
def Edit.Spares (e : Edit) (p : Passage) : Prop := e.stop ≤ p.start ∨ p.stop ≤ e.start

namespace Edit

variable {e f : Edit} {p : Passage}

theorem spares_iff : e.Spares p ↔ e.span.overlaps p.span = false := by
  rw [← Bool.not_eq_true, Span.overlaps_eq_true]
  simp only [Spares, span, Passage.span]
  omega

theorem Spares.mono (he : e.Spares p) {q : Passage} (hstart : p.start ≤ q.start)
    (hstop : q.stop ≤ p.stop) : e.Spares q :=
  he.imp (fun h => h.trans hstart) fun h => hstop.trans h

/-- No bridge leads over a passage: overlapping ranges that both spare it lie on one side. -/
theorem Spares.join (he : e.Spares p) (hf : f.Spares p) (hclash : e.conflicts f = true) :
    Edit.Spares ⟨e.start, max e.stop f.stop, e.replacement⟩ p := by
  have hle : p.start ≤ p.stop := Nat.le_add_right _ _
  rw [conflicts_iff] at hclash
  unfold Spares at *
  simp only
  omega

end Edit

namespace EditPlan

open Text (Holds)

variable {n : Nat} {t out content : Text} {edits : List Edit} {ps : List Passage} {plan : EditPlan}

theorem Turns.holds (h : Turns n t edits out) (hs : Passage.Stand n ps t)
    (hfree : ∀ e ∈ edits, ∀ p ∈ ps, e.Spares p) : Holds (ps.map (·.text)) out := by
  induction h generalizing ps with
  | done n rest => exact hs.holds
  | @edit n e edits gap removed rest out hstart hstop tail ih =>
    obtain ⟨qs, rs, rfl, hqs, hrs⟩ := hs.split fun p hp => by
      have hp := hfree e (by simp) p hp
      unfold Edit.Spares at hp
      omega
    rw [← hstart, ← hstop] at hrs
    have hbehind := ih hrs fun f hf p hp => hfree f (by simp [hf]) p (by simp [hp])
    simpa using hqs.holds.append (hbehind.prepend e.replacement)

/-- Applying edits keeps the passages that all of them spare. -/
theorem holds_applyTo (h : prepare content edits = .ok plan) (hs : Passage.Stand 0 ps content)
    (hfree : ∀ e ∈ edits, ∀ p ∈ ps, e.Spares p) :
    Holds (ps.map (·.text)) (plan.applyTo content) := by
  have hturns := (turns_applyTo h).2
  obtain ⟨hfits, rfl⟩ := prepare_eq_ok_iff.mp h
  refine hturns.holds hs ?_
  refine forall_accepted_ofEdits (fun e he => (hfits e he).start_le_stop) hfree ?_
  exact fun e f he hf _ _ _ hclash p hp => (he p hp).join (hf p hp) hclash

end EditPlan
end Tidymark
