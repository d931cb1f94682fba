import Mathlib
import Tidymark.Proofs.Pipeline.Pass
import Tidymark.Proofs.Rules.Headings
import Tidymark.Proofs.Rules.Lines
import Tidymark.Rules

/-! # Fixes keep what is visible

All rules of the library are harmless, so a run with any of them, on any tree, keeps the visible
characters of a text in their order. Only punctuation at the end of headings may go, if the rule for
it is among them and may fix. -/
namespace Tidymark

open MonadAttach (CanReturn)
open Text (visible Erases)
open Rules.HeadingPunctuation (punctuation)

namespace Pipeline

/-- A pass with harmless edits only erases visible characters of the class. -/
theorem erases_of_applyFixes {m : Type → Type} {p : Pipeline m} {s : Progress}
    {q : Char → Prop} {diagnostics : List Diagnostic} {outcome : Outcome}
    (hedits : ∀ e ∈ p.applicableEdits diagnostics, e.Harmless q s.content)
    (h : p.applyFixes s diagnostics = .ok outcome) :
    Erases q (visible s.content) (visible outcome.progress.content) := by
  cases hfix : p.options.fix with
  | false =>
    rw [applyFixes_of_not_fix hfix] at h
    obtain rfl := Except.ok.inj h
    exact .refl _
  | true =>
    obtain ⟨plan, hplan, hleads⟩ := leads_of_applyFixes hfix h
    have herases := EditPlan.erases_applyTo hplan hedits
    cases hleads with
    | settled _ =>
      rw [Outcome.progress, Progress.noted_content]
    | repeated _ _ => exact herases
    | changed _ _ => exact herases

end Pipeline

variable {m : Type → Type} [Monad m] [LawfulMonad m] [MonadAttach m] [LawfulMonadAttach m]
variable [MonadCancel m]

theorem Rules.harmless_of_mem_all {rule : Rule m} (h : rule ∈ all) :
    rule.Harmless fun options c => rule.id = "MD026" ∧ c ∈ punctuation options := by
  simp only [all, List.mem_cons, List.not_mem_nil, or_false] at h
  rcases h with rfl | rfl | rfl | rfl | rfl | rfl | rfl | rfl | rfl | rfl
  · exact TrailingSpaces.harmless_rule
  · exact HardTabs.harmless_rule
  · exact BlankRuns.harmless_rule
  · exact HashSpace.harmless_rule
  · exact HashGap.harmless_rule
  · exact HeadingBlanks.harmless_rule
  · exact HeadingIndent.harmless_rule
  · exact HeadingPunctuation.harmless_rule.mono fun _ _ h => ⟨rfl, h⟩
  · exact FirstHeading.harmless_rule
  · exact FinalNewline.harmless_rule

/-- The options of the rule for punctuation at the end of headings name the character. -/
def IsPunctuation (rules : List (ActiveRule m)) (c : Char) : Prop :=
  ∃ r ∈ rules, r.id = "MD026" ∧ c ∈ punctuation r.options

/-- The rule for punctuation at the end of headings may fix. -/
def FixesPunctuation (rules : List (ActiveRule m)) : Prop :=
  ∃ r ∈ rules, r.id = "MD026" ∧ r.fix = true

namespace Pipeline

variable {p : Pipeline m} {path : String} {initial content : Text} {pass : Nat}
variable {s : Progress} {r : PipelineResult} {found : Findings}

/-- The edits that a pass applies are harmless. -/
theorem harmless_of_mem_applicableEdits (hrules : ∀ r ∈ p.rules, r.rule ∈ Rules.all)
    (h : CanReturn (p.lint path pass content) found) {e : Edit}
    (he : e ∈ p.applicableEdits found.diagnostics) :
    e.Harmless (fun c => IsPunctuation p.rules c ∧ FixesPunctuation p.rules) content := by
  obtain ⟨d, hd, he⟩ := List.mem_flatMap.mp he
  obtain ⟨hd, happlicable⟩ := List.mem_filter.mp hd
  simp only [isApplicable, Bool.and_eq_true, List.any_eq_true, beq_iff_eq] at happlicable
  obtain ⟨-, fixer, hfixer, hfix, hid⟩ := happlicable
  obtain ⟨root, -, hfound⟩ := exists_tree_of_lint h
  obtain ⟨rule, hmem, answer, hanswer, hd⟩ := exists_rule_of_mem hfound hd
  have hharmless := Rules.harmless_of_mem_all (hrules rule hmem)
  have hd := hharmless (rule.context (.ofTree path content root)) content ⟨path, root, rfl⟩ answer
    hanswer d hd
  refine (hd.edits e he).mono ?_
  rintro c ⟨hrule, hc⟩
  refine ⟨⟨rule, hmem, hrule, hc⟩, fixer, hfixer, ?_, hfix⟩
  rw [hid, hd.ruleId]
  exact hrule

theorem erases_of_converge (hrules : ∀ r ∈ p.rules, r.rule ∈ Rules.all) {remaining : Nat}
    (h : CanReturn (p.converge path initial remaining s) r) :
    Erases (fun c => IsPunctuation p.rules c ∧ FixesPunctuation p.rules) (visible s.content)
      (visible r.finalContent) := by
  induction remaining generalizing s with
  | zero =>
    obtain ⟨found, -, rfl⟩ := exists_lint_of_finishChanged h
    exact .refl _
  | succ remaining ih =>
    obtain ⟨found, hfound, outcome, houtcome, h⟩ := exists_outcome_of_converge h
    have hpass := erases_of_applyFixes (s := s.passed found)
      (fun e he => harmless_of_mem_applicableEdits hrules hfound he) houtcome
    cases outcome with
    | settled same =>
      obtain rfl := h
      exact hpass
    | repeated next =>
      obtain ⟨found, -, rfl⟩ := exists_lint_of_finishChanged h
      exact hpass
    | changed next => exact hpass.trans (ih h)

/-- A run with rules of this library only moves white space and takes out punctuation at the end of
headings: the visible characters of the source stay in their order, but for some that the options
name as punctuation, and no other is added. All stay if the rule for punctuation may not fix. -/
theorem erases_visible_run {bytes : List UInt8} (hrules : ∀ r ∈ p.rules, r.rule ∈ Rules.all)
    (h : CanReturn (p.run path bytes) r) :
    ∃ source, decodeSource bytes = .ok source ∧
      Erases (IsPunctuation p.rules) (visible source) (visible r.finalContent) ∧
      (¬ FixesPunctuation p.rules → visible r.finalContent = visible source) := by
  obtain ⟨source, hsource, h⟩ := exists_source_of_run h
  have herases := erases_of_converge hrules h
  refine ⟨source, hsource, herases.mono fun c hc => hc.1, fun hnot => ?_⟩
  exact herases.eq_of_forall_not fun c hc => hnot hc.2

/-- A heading loses its punctuation, and the text gets its final newline. -/
theorem erases_visible_run_heading :
    let p : Pipeline Id :=
      ⟨fun _ => .ok (.branch .root ⟨0, 5⟩ [.branch .heading ⟨0, 5⟩ [] (.heading 1 false)]),
        [.ofRule Rules.HeadingPunctuation.rule, .ofRule Rules.FinalNewline.rule], ⟨true, 10⟩⟩
    Id.run (p.run "a.md" [35, 32, 65, 46, 33]).run =
        .ok ⟨"a.md", ['#', ' ', 'A', '\n'], true, [], 2, 2, [], [], false⟩ ∧
      Erases (IsPunctuation p.rules) ['#', 'A', '.', '!'] ['#', 'A'] := by
  intro p
  have hrun : Id.run (p.run "a.md" [35, 32, 65, 46, 33]).run =
      .ok ⟨"a.md", ['#', ' ', 'A', '\n'], true, [], 2, 2, [], [], false⟩ := by cbv
  have hrules : ∀ r ∈ p.rules, r.rule ∈ Rules.all := by
    intro r hr
    simp only [p, List.mem_cons, List.not_mem_nil, or_false] at hr
    rcases hr with rfl | rfl <;> simp [Rules.all, ActiveRule.ofRule]
  obtain ⟨source, hsource, herases, -⟩ := erases_visible_run hrules hrun
  have hdecoded : decodeSource [35, 32, 65, 46, 33] = .ok ['#', ' ', 'A', '.', '!'] := by cbv
  obtain rfl := Except.ok.inj (hdecoded.symm.trans hsource)
  exact ⟨hrun, herases⟩

end Pipeline
end Tidymark
