import Tidymark.Proofs.Edit.Harmless
import Tidymark.Proofs.Line.Tiling
import Tidymark.Proofs.Rule.Steps

/-! # Harmless rules

A rule is harmless if every edit that it proposes is, whatever tree it looks at. The characters that
it may take out besides white space depend on its options. -/
namespace Tidymark

open MonadAttach (CanReturn)
open Text (isWhitespace)

/-- The rule looks at this source, with any tree. -/
def RuleContext.Views (ctx : RuleContext) (source : Text) : Prop :=
  ∃ path root, ctx.snapshot = .ofTree path source root

/-- A finding of the rule that proposes harmless edits only. -/
structure Diagnostic.Harmless (ctx : RuleContext) (p : Char → Prop) (source : Text)
    (d : Diagnostic) : Prop where
  ruleId : d.ruleId = ctx.ruleId
  edits : ∀ e ∈ d.edits, e.Harmless p source

/-- All that the rule can report is harmless, where it may take out the characters that `p` has for
its options. -/
def Rule.Harmless {m : Type → Type} [Monad m] [MonadAttach m] (p : Json → Char → Prop)
    (rule : Rule m) : Prop :=
  ∀ ctx source, ctx.Views source → ∀ found, CanReturn (rule.check ctx) found →
    ∀ d ∈ found, d.Harmless ctx (p ctx.options) source

theorem Rule.Harmless.mono {m : Type → Type} [Monad m] [MonadAttach m] {rule : Rule m}
    {p q : Json → Char → Prop} (h : rule.Harmless p)
    (hpq : ∀ options c, p options c → q options c) : rule.Harmless q := by
  intro ctx source hctx found hfound d hd
  have hd := h ctx source hctx found hfound d hd
  exact ⟨hd.ruleId, fun e he => (hd.edits e he).mono (hpq ctx.options)⟩

namespace RuleContext

variable {ctx : RuleContext} {source : Text} {line : Line}

theorem Views.source_eq (h : ctx.Views source) : ctx.snapshot.source = source := by
  obtain ⟨path, root, h⟩ := h
  rw [h]
  rfl

theorem Views.tiles (h : ctx.Views source) : Line.Tiles 0 source ctx.snapshot.lines := by
  obtain ⟨path, root, h⟩ := h
  rw [h]
  exact Snapshot.tiles_ofTree path source root

theorem Views.exists_around (h : ctx.Views source) (hline : line ∈ ctx.snapshot.lines) :
    ∃ a b, source = a ++ line.text ++ line.terminator ++ b ∧ line.start = a.size := by
  obtain ⟨path, root, h⟩ := h
  obtain ⟨a, b, hsource, hstart⟩ := Snapshot.exists_around_line (h ▸ hline)
  exact ⟨a, b, by rw [hsource, Line.whole]; simp, hstart⟩

theorem Views.isWhitespace_of_blank (h : ctx.Views source) (hline : line ∈ ctx.snapshot.lines)
    (blank : line.isBlank = true) {c : Char} (hc : c ∈ line.whole) : isWhitespace c = true := by
  obtain ⟨path, root, h⟩ := h
  exact Snapshot.isWhitespace_of_mem_blank (h ▸ hline) blank hc

theorem getElem?_of_line {i : Nat} (h : ctx.line i = .ok line) :
    ctx.snapshot.lines[i]? = some line := by
  unfold RuleContext.line at h
  split at h
  · rename_i l hl
    obtain rfl := Except.ok.inj h
    exact hl
  · cases h

theorem mem_of_line {i : Nat} (h : ctx.line i = .ok line) : line ∈ ctx.snapshot.lines :=
  List.mem_of_getElem? (getElem?_of_line h)

theorem Views.exists_of_slice (h : ctx.Views source) {start stop : Nat} {text : Text}
    (hslice : ctx.slice start stop = .ok text) :
    ∃ a b, source = a ++ text ++ b ∧ start = a.size := by
  unfold RuleContext.slice at hslice
  split at hslice
  · rename_i text' htext
    obtain rfl := Except.ok.inj hslice
    rw [h.source_eq] at htext
    obtain ⟨a, b, hsource, hstart, -⟩ := Text.slice?_eq_some_iff.mp htext
    exact ⟨a, b, hsource, hstart.symm⟩
  · cases hslice

end RuleContext

section
variable {ctx : RuleContext} {p : Char → Prop} {source : Text} {span : Span} {message : String}

theorem Diagnostic.harmless_report_nil : (ctx.report span message).Harmless ctx p source :=
  ⟨rfl, fun e he => by cases he⟩

theorem Diagnostic.harmless_report {e : Edit} (h : e.Harmless p source) :
    (ctx.report span message [e]).Harmless ctx p source := by
  refine ⟨rfl, fun f hf => ?_⟩
  obtain rfl := List.mem_singleton.mp hf
  exact h

end

variable {m : Type → Type} [Monad m] [LawfulMonad m] [MonadAttach m] [LawfulMonadAttach m]
variable [MonadCancel m]

theorem Rule.harmless_ofSteps {id name description : String} {canFix : Bool}
    {steps : RuleContext → Except RuleError (List (Except RuleError (List Diagnostic)))}
    {p : Json → Char → Prop}
    (h : ∀ ctx source, ctx.Views source → ∀ list, steps ctx = .ok list → ∀ part, .ok part ∈ list →
      ∀ d ∈ part, d.Harmless ctx (p ctx.options) source) :
    (ofSteps id name description canFix steps : Rule m).Harmless p := by
  intro ctx source hctx found hfound d hd
  obtain ⟨list, hlist, part, hpart, hd⟩ := exists_step_of_mem hfound hd
  exact h ctx source hctx list hlist part hpart d hd

end Tidymark
