import Mathlib
import Tidymark.Proofs.Pipeline.Visible
import Tidymark.Proofs.Rules.Sparing

/-! # Code and front matter survive

What the rules of the library report on a source spares its verbatim lines, so that fixes leave each
block of them in one piece and all blocks in their order. -/
namespace Tidymark.Pipeline

open MonadAttach (CanReturn)
open Line (verbatimBlocks)

variable {m : Type → Type} [Monad m] [LawfulMonad m] [MonadAttach m] [LawfulMonadAttach m]
variable {rules : List (ActiveRule m)} {pass : Nat} {found : Findings}

/-- What a pass finds comes from a rule of the library that looked at the source. -/
theorem of_mem_runRules {P : RuleContext → Text → Edit → Prop}
    (hrules : ∀ r ∈ rules, r.rule.Proposes P) {path : String} {source : Text} {root : Node}
    (h : CanReturn (runRules pass (.ofTree path source root) rules) found) {d : Diagnostic}
    (hd : d ∈ found.diagnostics) {e : Edit} (he : e ∈ d.edits) :
    ∃ ctx : RuleContext, ctx.snapshot = .ofTree path source root ∧ P ctx source e := by
  obtain ⟨r, hr, answer, hanswer, hd⟩ := exists_rule_of_mem h hd
  have hP := hrules r hr (r.context _) source ⟨path, root, rfl⟩ answer hanswer d hd e he
  exact ⟨r.context _, rfl, hP⟩

variable [MonadCancel m]

variable {path : String} {source : Text} {root : Node}

theorem spares_of_runRules (hrules : ∀ r ∈ rules, r.rule ∈ Rules.all)
    (haligned : (Snapshot.ofTree path source root).HeadingsAligned)
    (h : CanReturn (runRules pass (.ofTree path source root) rules) found) :
    ∀ d ∈ found.diagnostics, ∀ e ∈ d.edits,
      ∀ block ∈ verbatimBlocks (Snapshot.ofTree path source root).lines, e.Spares block := by
  intro d hd e he
  obtain ⟨ctx, hctx, hspares⟩ :=
    of_mem_runRules (fun r hr => Rules.sparing_of_mem_all (hrules r hr)) h hd he
  rw [hctx] at hspares
  exact hspares haligned

/-- On a tree with its headings outside of code and front matter, no reported edit meets a block of
verbatim lines or puts something inside. The fixes can be applied, all or some of them, and the
blocks are still there, each in one piece and in their order. -/
theorem holds_verbatimBlocks (hrules : ∀ r ∈ rules, r.rule ∈ Rules.all) {path : String}
    {source : Text} {root : Node}
    (haligned : (Snapshot.ofTree path source root).HeadingsAligned)
    (h : CanReturn (runRules pass (.ofTree path source root) rules) found) :
    (∀ d ∈ found.diagnostics, ∀ e ∈ d.edits,
      ∀ block ∈ verbatimBlocks (Snapshot.ofTree path source root).lines,
        e.span.overlaps block.span = false) ∧
    ∀ edits, (∀ e ∈ edits, ∃ d ∈ found.diagnostics, e ∈ d.edits) →
      ∃ plan, EditPlan.prepare source edits = .ok plan ∧
        plan.applyTo? source = some (plan.applyTo source) ∧
        Text.Holds ((verbatimBlocks (Snapshot.ofTree path source root).lines).map (·.text))
          (plan.applyTo source) := by
  have hspares := spares_of_runRules hrules haligned h
  have hfits : ∀ d ∈ found.diagnostics, ∀ e ∈ d.edits, e.Fits source := by
    intro d hd e he
    obtain ⟨-, -, hfits⟩ := of_mem_runRules
      (fun r hr => (Rules.harmless_of_mem_all (hrules r hr)).proposes_fits) h hd he
    exact hfits
  refine ⟨fun d hd e he block hblock => Edit.spares_iff.mp (hspares d hd e he block hblock),
    fun edits hedits => ?_⟩
  have hplan : EditPlan.prepare source edits = .ok (.ofEdits edits) := by
    refine EditPlan.prepare_eq_ok_iff.mpr ⟨fun e he => ?_, rfl⟩
    obtain ⟨d, hd, he⟩ := hedits e he
    exact hfits d hd e he
  refine ⟨_, hplan, (EditPlan.turns_applyTo hplan).1, ?_⟩
  have hstand := (Snapshot.tiles_ofTree path source root).stand_verbatimBlocks
  refine EditPlan.holds_applyTo hplan hstand fun e he => ?_
  obtain ⟨d, hd, he⟩ := hedits e he
  exact hspares d hd e he

/-- Fixes all around a line of code: a space before it goes, a line break is put right behind it, and
the underlined heading loses its full stop. -/
theorem holds_verbatimBlocks_code :
    let source : Text :=
      ['a', ' ', '\n', '\t', 'x', ' ', '\n', '#', ' ', ' ', 'B', '\n', 'T', '.', '\n', '=', '=']
    let root : Node := .branch .root ⟨0, 17⟩
      [.literal .code ⟨3, 6⟩ ['x', ' '] (.code none false),
        .branch .heading ⟨7, 11⟩ [] (.heading 1 false), .branch .heading ⟨12, 17⟩ [] (.heading 1 true)]
    let rules : List (ActiveRule Id) := Rules.all.map .ofRule
    let edits : List Edit := [⟨1, 2, []⟩, ⟨8, 10, [' ']⟩, ⟨7, 7, ['\n']⟩, ⟨12, 12, ['\n']⟩,
      ⟨12, 12, ['\n']⟩, ⟨13, 14, []⟩, ⟨17, 17, ['\n']⟩]
    ∃ found, CanReturn (runRules 1 (.ofTree "a.md" source root) rules) found ∧
      found.diagnostics.flatMap (·.edits) = edits ∧
      (∀ d ∈ found.diagnostics, ∀ e ∈ d.edits, e.span.overlaps ⟨3, 7⟩ = false) ∧
      ∃ plan, EditPlan.prepare source edits = .ok plan ∧
        Text.Holds [['\t', 'x', ' ', '\n']] (plan.applyTo source) := by
  intro source root rules edits
  have hrun : (Id.run (runRules 1 (.ofTree "a.md" source root) rules).run).map
      (·.diagnostics.flatMap (·.edits)) = .ok edits := by cbv
  obtain ⟨found, hfound, hedits⟩ := map_eq_ok_iff.mp hrun
  have hrules : ∀ r ∈ rules, r.rule ∈ Rules.all := by
    intro r hr
    obtain ⟨rule, hrule, rfl⟩ := List.mem_map.mp hr
    exact hrule
  have haligned : (Snapshot.ofTree "a.md" source root).HeadingsAligned :=
    ⟨by decide, by decide, by decide, by decide⟩
  have hblocks : verbatimBlocks (Snapshot.ofTree "a.md" source root).lines =
      [⟨3, ['\t', 'x', ' ', '\n']⟩] := by cbv
  obtain ⟨hspares, hholds⟩ := holds_verbatimBlocks hrules haligned hfound
  rw [hblocks] at hspares hholds
  have hfree : ∀ d ∈ found.diagnostics, ∀ e ∈ d.edits, e.span.overlaps ⟨3, 7⟩ = false :=
    fun d hd e he => hspares d hd e he _ (List.mem_singleton.mpr rfl)
  obtain ⟨plan, hplan, -, hholds⟩ :=
    hholds edits fun e he => List.mem_flatMap.mp (hedits ▸ he)
  exact ⟨found, hfound, hedits, hfree, plan, hplan, hholds⟩

end Tidymark.Pipeline
