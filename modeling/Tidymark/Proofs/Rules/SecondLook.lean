import Tidymark.Proofs.Rules.BlankThinning
import Tidymark.Proofs.Rules.HashSpacing
import Tidymark.Proofs.Rules.LastNewline
import Tidymark.Proofs.Rules.TabExpansion

/-! # A second look at lines

The rules that look at one line after another, but for the one for trailing spaces, are done with a
text of prose once their fixes are applied: of what they make of it they report nothing, though it is
cut into lines anew. -/
namespace Tidymark.Rules

/-- The rules for lines that settle every text of prose. -/
def settling : List (Rule Id) :=
  [HardTabs.rule, BlankRuns.rule, HashSpace.rule, FinalNewline.rule]

variable {rule : ActiveRule Id} {parser : Parser Id} {source : Text} {root : Node}

/-- Each of these rules settles a text, the one for the newline at its end in the way that is said of
it. -/
theorem exists_settles (hrule : rule.rule ∈ settling) (haccepts : rule.Accepts) (source : Text) :
    ∃ fixed, rule.Settles source fixed ∧
      (rule.rule = FinalNewline.rule → fixed = FinalNewline.ended source) := by
  simp only [settling, List.mem_cons, List.not_mem_nil, or_false] at hrule
  have hid {other : Rule Id} (h : rule.rule = other) (hne : other.id ≠ "MD047")
      (hsame : rule.rule = FinalNewline.rule) : False :=
    hne (congrArg Rule.id (h.symm.trans hsame))
  rcases hrule with h | h | h | h
  · obtain ⟨width, hwidth⟩ := haccepts.exists_countOption fun ctx error herror => by
      rw [h]
      exact Rule.run_ofSteps_error (by rw [HardTabs.steps, herror]; rfl)
    exact ⟨_, HardTabs.settles h hwidth source, fun hsame => (hid h (by decide) hsame).elim⟩
  · obtain ⟨maximum, hmaximum⟩ := haccepts.exists_countOption fun ctx error herror => by
      rw [h]
      exact Rule.run_ofSteps_error (by rw [BlankRuns.steps, herror]; rfl)
    exact ⟨_, BlankRuns.settles h hmaximum source, fun hsame => (hid h (by decide) hsame).elim⟩
  · exact ⟨_, HashSpace.settles h source, fun hsame => (hid h (by decide) hsame).elim⟩
  · exact ⟨_, FinalNewline.settles h source, fun _ => rfl⟩

/-- With options that it accepts, each of these rules has nothing left to report once its fixes are
applied, whatever the source, if there is neither code nor front matter in the trees. The rule for the
newline at the end leaves the source up to its last line that is not blank, with a newline there; a
source of blank lines stays. -/
theorem fixOnce_settling (hrule : rule.rule ∈ settling) (haccepts : rule.Accepts)
    (hroot : parser source = .ok root) (hprose : root.IsProse) :
    ∃ found plan fixed, Id.run (rule.lint parser source).run = .ok found ∧
      EditPlan.prepareStrictly source (found.flatMap (·.edits)) = .ok plan ∧
      plan.applyTo? source = some fixed ∧
      (∀ root', parser fixed = .ok root' → root'.IsProse →
        Id.run (rule.fixOnce parser source).run = .ok fixed) ∧
      (rule.rule = FinalNewline.rule → fixed = FinalNewline.ended source) := by
  obtain ⟨fixed, hsettles, hended⟩ := exists_settles hrule haccepts source
  obtain ⟨found, plan, hcheck, hplan, happly⟩ := hsettles.fixes root hprose
  exact ⟨found, plan, fixed, ActiveRule.run_lint hroot hcheck, hplan, happly,
    fun root' hroot' hprose' => hsettles.run_fixOnce hroot hprose hroot' hprose', hended⟩

/-- The newline that is put in belongs to the terminator together with the carriage return. -/
theorem fixOnce_settling_carriage_return :
    let rule : ActiveRule Id := .ofRule FinalNewline.rule
    let source : Text := ['a', '\n', '\n', 'b', '\r']
    let fixed : Text := ['a', '\n', '\n', 'b', '\r', '\n']
    rule.rule ∈ settling ∧ rule.Accepts ∧ (Markdown.parse source).IsProse ∧
      (Markdown.parse fixed).IsProse ∧
      Id.run (rule.fixOnce Parser.markdown source).run = .ok fixed := by
  intro rule source fixed
  have hrule : rule.rule ∈ settling := by simp [settling, rule, ActiveRule.ofRule]
  have haccepts : rule.Accepts := fun snapshot option message h =>
    nomatch (FinalNewline.run_rule (rule.context snapshot)).symm.trans h
  have hroot : Markdown.parse source = .branch .root ⟨0, 5⟩
      [.branch .paragraph ⟨0, 1⟩ [.literal .text ⟨0, 1⟩ ['a']],
        .branch .paragraph ⟨3, 4⟩ [.literal .text ⟨3, 4⟩ ['b']]] := by cbv
  have hroot' : Markdown.parse fixed = .branch .root ⟨0, 6⟩
      [.branch .paragraph ⟨0, 1⟩ [.literal .text ⟨0, 1⟩ ['a']],
        .branch .paragraph ⟨3, 4⟩ [.literal .text ⟨3, 4⟩ ['b']]] := by cbv
  have hprose : (Markdown.parse source).IsProse := by
    rw [hroot]
    decide
  have hprose' : (Markdown.parse fixed).IsProse := by
    rw [hroot']
    decide
  obtain ⟨found, plan, out, hfound, hplan, happly, hfix, hended⟩ :=
    fixOnce_settling hrule haccepts (Parser.markdown_eq_ok rfl (by decide)) hprose
  obtain rfl : out = fixed := (hended rfl).trans (by decide)
  exact ⟨hrule, haccepts, hprose, hprose',
    hfix _ (Parser.markdown_eq_ok rfl (by decide)) hprose'⟩

end Tidymark.Rules
