import Tidymark.Proofs.Rules.Proposals
import Tidymark.Rules

/-! # The edits of one rule agree

Whatever tree a rule of the library looks at, its edits can be applied together: most rules only
delete or only insert. The others keep to lines or to runs, where edits that meet are the same. -/
namespace Tidymark.Rules

variable {m : Type → Type} [Monad m] [LawfulMonad m] [MonadAttach m] [LawfulMonadAttach m]
variable [MonadCancel m]

theorem TrailingSpaces.agreeing_rule : (rule : Rule m).Agreeing :=
  proposes_rule.agreeing fun _ _ _ _ _ he hf _ => .inr ⟨he.2, hf.2⟩

theorem HardTabs.agreeing_rule : (rule : Rule m).Agreeing := by
  refine proposes_rule.agreeing fun ctx source hctx e f he hf => ?_
  obtain ⟨width, hwidth, k, hk, -, run, hrun, rfl⟩ := he
  obtain ⟨width', hwidth', l, hl, -, run', hrun', rfl⟩ := hf
  obtain rfl := Except.ok.inj (hwidth.symm.trans hwidth')
  refine hctx.agrees_of_lines hk hl (within_expand hrun) (within_expand hrun') ?_
  rintro rfl
  rcases eq_or_of_pairwise (apart_tabRuns _ _) hrun hrun' with rfl | happart | happart
  · exact fun _ => .inl rfl
  · exact Edit.agrees_of_stop_le_start happart
  · exact (Edit.agrees_of_stop_le_start happart).symm

theorem BlankRuns.agreeing_rule : (rule : Rule m).Agreeing := by
  refine proposes_rule.agreeing fun ctx source hctx e f he hf => ?_
  obtain ⟨k, hk, -, rfl⟩ := he
  obtain ⟨l, hl, -, rfl⟩ := hf
  refine hctx.agrees_of_lines hk hl ⟨Nat.le_refl _, Nat.le_refl _⟩ ⟨Nat.le_refl _, Nat.le_refl _⟩ ?_
  rintro rfl
  exact fun _ => .inl rfl

theorem HashSpace.agreeing_rule : (rule : Rule m).Agreeing :=
  proposes_rule.agreeing fun _ _ _ _ _ he hf => Edit.agrees_of_insertions he.2 hf.2

/-- Several headings may share a line, but where their gaps meet they are the same: a gap is a run of
blanks of the source. -/
theorem HashGap.agreeing_rule : (rule : Rule m).Agreeing := by
  refine proposes_rule.agreeing fun ctx source hctx e f he hf hclash => ?_
  obtain ⟨hput, hrun, -⟩ := he
  obtain ⟨hput', hrun', -⟩ := hf
  obtain ⟨hlt, hlt'⟩ := Edit.conflicts_iff.mp hclash
  obtain ⟨hstart, hstop⟩ := hrun.eq_of_overlap hrun' hlt' hlt
  left
  cases e
  cases f
  simp_all

theorem HeadingBlanks.agreeing_rule : (rule : Rule m).Agreeing :=
  proposes_rule.agreeing fun _ _ _ _ _ he hf => Edit.agrees_of_insertions he.1 hf.1

theorem HeadingIndent.agreeing_rule : (rule : Rule m).Agreeing :=
  proposes_rule.agreeing fun _ _ _ _ _ he hf _ => .inr ⟨he.1, hf.1⟩

theorem HeadingPunctuation.agreeing_rule : (rule : Rule m).Agreeing :=
  proposes_rule.agreeing fun _ _ _ _ _ he hf _ => .inr ⟨he.1, hf.1⟩

theorem FirstHeading.agreeing_rule : (rule : Rule m).Agreeing :=
  proposes_rule.agreeing fun _ _ _ _ _ he => he.elim

theorem FinalNewline.agreeing_rule : (rule : Rule m).Agreeing := by
  refine proposes_rule.agreeing fun ctx source hctx e f he hf _ => .inl ?_
  obtain ⟨k, hk, hk', rfl⟩ := he
  obtain ⟨l, hl, hl', rfl⟩ := hf
  rw [eq_of_mem_untilContent hk hl hk' hl']

theorem agreeing_of_mem_all {rule : Rule m} (h : rule ∈ all) : rule.Agreeing := by
  simp only [all, List.mem_cons, List.not_mem_nil, or_false] at h
  rcases h with rfl | rfl | rfl | rfl | rfl | rfl | rfl | rfl | rfl | rfl
  · exact TrailingSpaces.agreeing_rule
  · exact HardTabs.agreeing_rule
  · exact BlankRuns.agreeing_rule
  · exact HashSpace.agreeing_rule
  · exact HashGap.agreeing_rule
  · exact HeadingBlanks.agreeing_rule
  · exact HeadingIndent.agreeing_rule
  · exact HeadingPunctuation.agreeing_rule
  · exact FirstHeading.agreeing_rule
  · exact FinalNewline.agreeing_rule

end Tidymark.Rules
