import Tidymark.Proofs.Edit.Agreement
import Tidymark.Proofs.Line.Block
import Tidymark.Proofs.Rule.Harmless

/-! # What rules propose

What is known of each edit that a rule proposes carries over to all that it proposes on a source, and
so to whether these edits can be applied together. -/
namespace Tidymark

open MonadAttach (CanReturn)

/-- Every edit that the rule proposes on a source has the property, whatever tree it looks at. -/
def Rule.Proposes {m : Type → Type} [Monad m] [MonadAttach m]
    (P : RuleContext → Text → Edit → Prop) (rule : Rule m) : Prop :=
  ∀ ctx source, ctx.Views source → ∀ found, CanReturn (rule.check ctx) found →
    ∀ d ∈ found, ∀ e ∈ d.edits, P ctx source e

/-- All that the rule proposes on a source can be applied together. -/
def Rule.Agreeing {m : Type → Type} [Monad m] [MonadAttach m] (rule : Rule m) : Prop :=
  ∀ ctx source, ctx.Views source → ∀ found, CanReturn (rule.check ctx) found →
    ∀ e ∈ found.flatMap (·.edits), ∀ f ∈ found.flatMap (·.edits), e.Agrees f

/-- The edit lies on the line that `index` names for a heading. -/
def RuleContext.Targets (index : RuleContext → Heading → Nat) (ctx : RuleContext) (e : Edit) :
    Prop :=
  ∃ heading ∈ ctx.snapshot.headings, ∃ line, ctx.line (index ctx heading) = .ok line ∧ e.Within line

namespace RuleContext

variable {ctx : RuleContext} {source text : Text} {heading : Heading}

theorem stop_eq_of_slice {start stop : Nat} (h : ctx.slice start stop = .ok text) :
    stop = start + text.size := by
  unfold RuleContext.slice at h
  split at h
  · rename_i text' htext
    obtain rfl := Except.ok.inj h
    obtain ⟨a, b, -, hstart, hstop⟩ := Text.slice?_eq_some_iff.mp htext
    omega
  · cases h

/-- A heading starts on the line that it names. -/
theorem Views.line_eq (h : ctx.Views source) (hheading : heading ∈ ctx.snapshot.headings) :
    heading.line = ctx.snapshot.lineIndex heading.span.start := by
  obtain ⟨path, root, h⟩ := h
  rw [h] at hheading ⊢
  obtain ⟨⟨span, depth, setext, topLevel⟩, -, rfl⟩ := List.mem_map.mp hheading
  rfl

/-- Two edits agree that lie on lines, if they agree on one line. -/
theorem Views.agrees_of_lines (h : ctx.Views source) {k l : Line} {e f : Edit}
    (hk : k ∈ ctx.snapshot.lines) (hl : l ∈ ctx.snapshot.lines) (he : e.Within k)
    (hf : f.Within l) (hsame : k = l → e.Agrees f) : e.Agrees f := by
  unfold Edit.Within at he hf
  rcases eq_or_of_pairwise h.tiles.apart hk hl with hkl | hkl | hlk
  · exact hsame hkl
  · exact Edit.agrees_of_stop_le_start (by omega)
  · exact (Edit.agrees_of_stop_le_start (by omega)).symm

end RuleContext

namespace Rule

variable {m : Type → Type} [Monad m] [MonadAttach m] {rule : Rule m}
variable {P : RuleContext → Text → Edit → Prop}

theorem Proposes.imp {Q : RuleContext → Text → Edit → Prop} (h : rule.Proposes P)
    (hPQ : ∀ ctx source, ctx.Views source → ∀ e, P ctx source e → Q ctx source e) :
    rule.Proposes Q :=
  fun ctx source hctx found hfound d hd e he =>
    hPQ ctx source hctx e (h ctx source hctx found hfound d hd e he)

theorem Proposes.agreeing (h : rule.Proposes P)
    (hP : ∀ ctx source, ctx.Views source → ∀ e f, P ctx source e → P ctx source f → e.Agrees f) :
    rule.Agreeing := by
  intro ctx source hctx found hfound e he f hf
  obtain ⟨d, hd, he⟩ := List.mem_flatMap.mp he
  obtain ⟨d', hd', hf⟩ := List.mem_flatMap.mp hf
  exact hP ctx source hctx e f (h ctx source hctx found hfound d hd e he)
    (h ctx source hctx found hfound d' hd' f hf)

theorem Harmless.proposes_fits {p : Json → Char → Prop} (h : rule.Harmless p) :
    rule.Proposes fun _ source e => e.Fits source := by
  intro ctx source hctx found hfound d hd e he
  exact ((h ctx source hctx found hfound d hd).edits e he).fits

theorem proposes_ofSteps [LawfulMonad m] [LawfulMonadAttach m] [MonadCancel m]
    {id name description : String} {canFix : Bool}
    {steps : RuleContext → Except RuleError (List (Except RuleError (List Diagnostic)))}
    (h : ∀ ctx source, ctx.Views source → ∀ list, steps ctx = .ok list → ∀ part, .ok part ∈ list →
      ∀ d ∈ part, ∀ e ∈ d.edits, P ctx source e) :
    (ofSteps id name description canFix steps : Rule m).Proposes P := by
  intro ctx source hctx found hfound d hd e he
  obtain ⟨list, hlist, part, hpart, hd⟩ := exists_step_of_mem hfound hd
  exact h ctx source hctx list hlist part hpart d hd e he

end Rule
end Tidymark
