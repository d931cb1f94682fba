import Tidymark.Proofs.Rules.Proposals
import Tidymark.Rules

/-! # Rules spare code and front matter

No rule of the library proposes an edit that meets a block of verbatim lines, if the tree has its
headings elsewhere. The rules for headings rely on that: they do not ask what kind of line a heading
leads them to. -/
namespace Tidymark

/-- The tree has its headings where a parser finds them: each takes some bytes of the source and none
of a verbatim line, and an underlined one ends on a line below the one it starts on. -/
structure Snapshot.HeadingsAligned (s : Snapshot) : Prop where
  nonempty : ∀ h ∈ s.headings, h.span.start < h.span.stop
  inRange : ∀ h ∈ s.headings, h.span.stop ≤ s.source.size
  plain : ∀ h ∈ s.headings, ∀ l ∈ s.lines, h.span.overlaps l.span = true → l.verbatim = false
  underlined : ∀ h ∈ s.headings, h.setext = true → h.line < s.lineIndex (h.span.stop - 1)

namespace RuleContext

variable {ctx : RuleContext} {source : Text} {heading : Heading} {e : Edit}

theorem Views.line_le_lineIndex (hctx : ctx.Views source) (ha : ctx.snapshot.HeadingsAligned)
    (hheading : heading ∈ ctx.snapshot.headings) :
    heading.line ≤ ctx.snapshot.lineIndex (heading.span.stop - 1) := by
  have hnonempty := ha.nonempty heading hheading
  have hrange := ha.inRange heading hheading
  rw [hctx.source_eq] at hrange
  rw [hctx.line_eq hheading]
  exact hctx.tiles.indexAt_le_indexAt (Nat.zero_le _) (by omega) (by omega)

/-- The lines from the first to the last of a heading are plain. -/
theorem Views.onPlain_of_targets (hctx : ctx.Views source) (ha : ctx.snapshot.HeadingsAligned)
    {index : RuleContext → Heading → Nat} (he : ctx.Targets index e)
    (hindex : ∀ heading ∈ ctx.snapshot.headings, heading.line ≤ index ctx heading ∧
      index ctx heading ≤ ctx.snapshot.lineIndex (heading.span.stop - 1)) :
    e.OnPlain ctx.snapshot.lines := by
  obtain ⟨heading, hheading, line, hline, hwithin⟩ := he
  obtain ⟨hfirst, hlast⟩ := hindex heading hheading
  have hrange := ha.inRange heading hheading
  rw [hctx.source_eq] at hrange
  rw [hctx.line_eq hheading] at hfirst
  have hl := getElem?_of_line hline
  have hmem := List.mem_of_getElem? hl
  have hoverlaps := hctx.tiles.overlaps_of_index (Nat.zero_le _) (ha.nonempty heading hheading)
    (by omega) hfirst hlast hl
  exact ⟨line, hmem, ha.plain heading hheading line hmem hoverlaps, hwithin⟩

theorem Views.onPlain_of_targets_line (hctx : ctx.Views source)
    (ha : ctx.snapshot.HeadingsAligned) (he : ctx.Targets (fun _ heading => heading.line) e) :
    e.OnPlain ctx.snapshot.lines :=
  hctx.onPlain_of_targets ha he fun _ hheading =>
    ⟨Nat.le_refl _, hctx.line_le_lineIndex ha hheading⟩

end RuleContext

/-- All that the rule proposes spares the blocks of verbatim lines, if the headings are aligned. -/
def Rule.Sparing {m : Type → Type} [Monad m] [MonadAttach m] (rule : Rule m) : Prop :=
  rule.Proposes fun ctx _ e => ctx.snapshot.HeadingsAligned →
    ∀ block ∈ Line.verbatimBlocks ctx.snapshot.lines, e.Spares block

namespace Rules

variable {m : Type → Type} [Monad m] [LawfulMonad m] [MonadAttach m] [LawfulMonadAttach m]
variable [MonadCancel m]

theorem TrailingSpaces.sparing_rule : (rule : Rule m).Sparing :=
  proposes_rule.imp fun _ _ hctx _ he _ => he.1.spares hctx.tiles

theorem HardTabs.sparing_rule : (rule : Rule m).Sparing := by
  refine proposes_rule.imp fun ctx source hctx e he _ => ?_
  obtain ⟨width, -, line, hline, hplain, run, hrun, rfl⟩ := he
  exact Edit.OnPlain.spares ⟨line, hline, hplain, within_expand hrun⟩ hctx.tiles

theorem BlankRuns.sparing_rule : (rule : Rule m).Sparing := by
  refine proposes_rule.imp fun ctx source hctx e he _ => ?_
  obtain ⟨line, hline, hplain, rfl⟩ := he
  exact Edit.OnPlain.spares ⟨line, hline, hplain, Nat.le_refl _, Nat.le_refl _⟩ hctx.tiles

theorem HashSpace.sparing_rule : (rule : Rule m).Sparing :=
  proposes_rule.imp fun _ _ hctx _ he _ => he.1.spares hctx.tiles

theorem HashGap.sparing_rule : (rule : Rule m).Sparing :=
  proposes_rule.imp fun _ _ hctx _ he ha =>
    (hctx.onPlain_of_targets_line ha he.2.2).spares hctx.tiles

theorem HeadingBlanks.sparing_rule : (rule : Rule m).Sparing := by
  refine proposes_rule.imp fun ctx source hctx e he ha => ?_
  rcases he.2 with he | he
  · exact (hctx.onPlain_of_targets_line ha he).spares hctx.tiles
  · refine (hctx.onPlain_of_targets ha he fun heading hheading => ?_).spares hctx.tiles
    have hnonempty := ha.nonempty heading hheading
    have hlast : lastLine ctx heading = ctx.snapshot.lineIndex (heading.span.stop - 1) := by
      rw [lastLine, Nat.max_eq_left (by omega)]
    rw [hlast]
    exact ⟨hctx.line_le_lineIndex ha hheading, Nat.le_refl _⟩

theorem HeadingIndent.sparing_rule : (rule : Rule m).Sparing :=
  proposes_rule.imp fun _ _ hctx _ he ha =>
    (hctx.onPlain_of_targets_line ha he.2).spares hctx.tiles

theorem HeadingPunctuation.sparing_rule : (rule : Rule m).Sparing := by
  refine proposes_rule.imp fun ctx source hctx e he ha => ?_
  refine (hctx.onPlain_of_targets ha he.2 fun heading hheading => ?_).spares hctx.tiles
  have hle := hctx.line_le_lineIndex ha hheading
  unfold textLine
  split
  · rename_i hsetext
    have hlt := ha.underlined heading hheading hsetext
    omega
  · exact ⟨Nat.le_refl _, hle⟩

theorem FirstHeading.sparing_rule : (rule : Rule m).Sparing :=
  proposes_rule.imp fun _ _ _ _ he => he.elim

/-- Verbatim lines have content, so none follows the line that this rule closes. -/
theorem FinalNewline.stop_le_close {ctx : RuleContext} {source : Text} {last l : Line}
    (hctx : ctx.Views source) (hlast : last ∈ untilContent ctx.snapshot.lines.reverse)
    (hl : l ∈ ctx.snapshot.lines) (hverbatim : l.verbatim = true) :
    l.stop ≤ (close source last).start := by
  obtain ⟨behind, ahead, hlines, hbehind⟩ := mem_of_mem_untilContent hlast
  have hsplit : ctx.snapshot.lines = ahead.reverse ++ last :: behind.reverse := by
    rw [← List.reverse_reverse ctx.snapshot.lines, hlines]
    simp
  have hstop : l.stop ≤ last.stop := by
    have hapart := hsplit ▸ hctx.tiles.apart
    rw [hsplit, List.mem_append, List.mem_cons, List.mem_reverse, List.mem_reverse] at hl
    rcases hl with hl | rfl | hl
    · have h1 := (List.pairwise_append.mp hapart).2.2 l (by simpa using hl) last (by simp)
      exact h1.trans last.start_le_stop
    · exact Nat.le_refl _
    · have hcontent := hbehind l hl
      simp [isContent, hverbatim] at hcontent
  have hsize := (hctx.tiles.bounds (l := last) (by simp [hsplit])).2
  unfold close
  split
  · exact hstop
  · simp only [Edit.insert]
    omega

theorem FinalNewline.sparing_rule : (rule : Rule m).Sparing := by
  refine proposes_rule.imp fun ctx source hctx e he _ => ?_
  obtain ⟨last, hlast, -, rfl⟩ := he
  exact Edit.spares_of_behind hctx.tiles fun l hl hverbatim =>
    stop_le_close hctx hlast hl hverbatim

theorem sparing_of_mem_all {rule : Rule m} (h : rule ∈ all) : rule.Sparing := by
  simp only [all, List.mem_cons, List.not_mem_nil, or_false] at h
  rcases h with rfl | rfl | rfl | rfl | rfl | rfl | rfl | rfl | rfl | rfl
  · exact TrailingSpaces.sparing_rule
  · exact HardTabs.sparing_rule
  · exact BlankRuns.sparing_rule
  · exact HashSpace.sparing_rule
  · exact HashGap.sparing_rule
  · exact HeadingBlanks.sparing_rule
  · exact HeadingIndent.sparing_rule
  · exact HeadingPunctuation.sparing_rule
  · exact FirstHeading.sparing_rule
  · exact FinalNewline.sparing_rule

end Rules
end Tidymark
