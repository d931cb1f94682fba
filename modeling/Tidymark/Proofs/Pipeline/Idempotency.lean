import Mathlib
import Tidymark.Idempotency
import Tidymark.Proofs.Edit.Agreement
import Tidymark.Proofs.Pipeline.Selection
import Tidymark.Proofs.Pipeline.Stability

/-! # Fixing once and fixing until done

A rule that leaves nothing to fix behind its own fixes is done with in a run after the pass that
applies them. The run prepares these fixes leniently, but there is nothing to skip, and it lints the
text that they make as often as its limit allows, but each lint finds the same. -/
namespace Tidymark

open MonadAttach (CanReturn)

namespace ActiveRule

section
variable {m : Type → Type} [Monad m] [LawfulMonad m] [MonadAttach m] [LawfulMonadAttach m]
variable {rule : ActiveRule m} {parser : Parser m} {source fixed : Text}
variable {diagnostics : List Diagnostic}

theorem exists_root_of_lint (h : CanReturn (rule.lint parser source) diagnostics) :
    ∃ root, CanReturn (parser source) (.ok root) ∧
      CanReturn (rule.check (.ofTree "<idempotency>" source root)) diagnostics := by
  obtain ⟨parsed, hparsed, h⟩ := canReturn_bind h
  have hparsed : CanReturn (Snapshot.ofSource parser "<idempotency>" source) parsed :=
    canReturn_lift hparsed
  obtain ⟨tree, htree, hparsed⟩ := canReturn_bind hparsed
  obtain rfl := canReturn_pure hparsed
  cases tree with
  | error error => exact absurd h not_canReturn_throw
  | ok root =>
    obtain ⟨answer, hanswer, h⟩ := canReturn_bind h
    have hanswer : CanReturn (rule.check (.ofTree "<idempotency>" source root)).run answer :=
      canReturn_lift hanswer
    cases answer with
    | error error => exact absurd h not_canReturn_throw
    | ok found =>
      obtain rfl := canReturn_pure h
      exact ⟨root, htree, hanswer⟩

/-- Fixing once lints the text, applies all fixes, and finds none in the text that they make. -/
theorem exists_plan_of_fixOnce (h : CanReturn (rule.fixOnce parser source) fixed) :
    ∃ found plan rest, CanReturn (rule.lint parser source) found ∧
      EditPlan.prepareStrictly source (found.flatMap (·.edits)) = .ok plan ∧
      plan.applyTo source = fixed ∧
      CanReturn (rule.lint parser fixed) rest ∧ ∀ d ∈ rest, d.isFixable = false := by
  obtain ⟨found, hfound, h⟩ := canReturn_bind h
  split at h
  · exact absurd h not_canReturn_throw
  · rename_i plan hplan
    obtain ⟨rest, hrest, h⟩ := canReturn_bind h
    dsimp only at h
    split at h
    · obtain ⟨_, h, -⟩ := canReturn_bind h
      exact absurd h not_canReturn_throw
    · rename_i hnone
      obtain rfl := canReturn_pure h
      refine ⟨found, plan, rest, hfound, hplan, rfl, hrest, fun d hd => ?_⟩
      simpa using List.countP_eq_zero.mp (Nat.eq_zero_of_not_pos hnone) d hd

end

end ActiveRule

namespace Pipeline

/-- The pipeline that applies the fixes of one rule. -/
def ofRule {m : Type → Type} (parser : Parser m) (rule : ActiveRule m) (maxPasses : Nat) :
    Pipeline m :=
  ⟨parser, [rule], ⟨true, maxPasses⟩⟩

theorem applicableEdits_of_not_fixable {m : Type → Type} (p : Pipeline m)
    {diagnostics : List Diagnostic} (h : ∀ d ∈ diagnostics, d.isFixable = false) :
    p.applicableEdits diagnostics = [] := by
  have hnone : diagnostics.filter p.isApplicable = [] := by
    rw [List.filter_eq_nil_iff]
    intro d hd
    simp [isApplicable, h d hd]
  rw [applicableEdits, hnone, List.flatMap_nil]

/-- If the fixes of the only rule may be applied, all that it reports under its id are. -/
theorem applicableEdits_ofRule {m : Type → Type} {parser : Parser m} {rule : ActiveRule m}
    {maxPasses : Nat} {diagnostics : List Diagnostic} (hfix : rule.fix = true)
    (hid : ∀ d ∈ diagnostics, d.ruleId = rule.id) :
    (ofRule parser rule maxPasses).applicableEdits diagnostics = diagnostics.flatMap (·.edits) := by
  induction diagnostics with
  | nil => rfl
  | cons d diagnostics ih =>
    have ih := ih fun d hd => hid d (by simp [hd])
    rw [applicableEdits] at ih ⊢
    have happlicable : (ofRule parser rule maxPasses).isApplicable d = d.isFixable := by
      simp [isApplicable, ofRule, hfix, hid d (by simp)]
    rw [List.filter_cons, happlicable, List.flatMap_cons]
    split
    · rw [List.flatMap_cons, ih]
    · rename_i hnone
      have hempty : d.edits = [] := by simpa [Diagnostic.isFixable] using hnone
      rw [ih, hempty, List.nil_append]

variable {p : Pipeline Id} {path : String} {initial content : Text} {found : List Diagnostic}
variable {s : Progress}

theorem run_lint_ofRule {parser : Parser Id} {rule : ActiveRule Id} {root : Node}
    (maxPasses pass : Nat) (hroot : CanReturn (parser content) (.ok root))
    (hcheck : CanReturn (rule.check (.ofTree path content root)) found) :
    Id.run ((ofRule parser rule maxPasses).lint path pass content).run = .ok ⟨found, []⟩ := by
  have hrule : (rule.check (.ofTree path content root)).run = pure (.ok found) := hcheck
  have hrules : Id.run (runRules pass (.ofTree path content root) [rule]).run =
      .ok ⟨found ++ [], []⟩ := by
    simp only [runRules, hrule]
    rfl
  rw [List.append_nil] at hrules
  rw [run_lint_of_root pass hroot]
  exact hrules

/-- A run from a text without fixes on ends with that text, however many passes are left. -/
theorem run_converge_of_not_fixable
    (hlint : ∀ pass, Id.run (p.lint path pass s.content).run = .ok ⟨found, []⟩)
    (hnone : ∀ d ∈ found, d.isFixable = false) (remaining : Nat) :
    ∃ r, Id.run (p.converge path initial remaining s).run = .ok r ∧ r.finalContent = s.content ∧
      r.diagnostics = Diagnostic.arrange found ∧ r.warnings = s.warnings ∧
      r.errors = s.failures := by
  cases remaining with
  | zero =>
    have hnone' : found.any p.isApplicable = false := by
      rw [List.any_eq_false]
      intro d hd
      simp [isApplicable, hnone d hd]
    have hrun : Id.run (p.converge path initial 0 s).run =
        .ok (finish path initial
          { s with failures := s.failures ++ [], warnings := s.warnings ++ [] } found) := by
      rw [converge, finishChanged, ExceptT.run_bind, Id.run_bind, hlint]
      simp only [hnone', Bool.and_false]
      rfl
    exact ⟨_, hrun, rfl, rfl, List.append_nil _, List.append_nil _⟩
  | succ remaining =>
    have happly : p.applyFixes (s.passed ⟨found, []⟩) found =
        .ok (.settled (s.passed ⟨found, []⟩)) := by
      simp [applyFixes, applicableEdits_of_not_fixable p hnone, pure, Except.pure]
    exact ⟨_, run_converge_succ (hlint _) happly, rfl, rfl, rfl, List.append_nil _⟩

/-- If nothing fails and nothing is skipped, a run on a text comes to the text that its fixes make
without a warning. -/
theorem exists_run_runText {source : Text} {plan : EditPlan} (hfix : p.options.fix = true)
    (hlint : ∀ pass, Id.run (p.lint path pass source).run = .ok ⟨found, []⟩)
    (hplan : EditPlan.prepare source (p.applicableEdits found) = .ok plan)
    (hskipped : plan.skipped = []) :
    ∃ s remaining, s.content = plan.applyTo source ∧ s.warnings = [] ∧ s.failures = [] ∧
      Id.run (p.runText path source).run = Id.run (p.converge path source remaining s).run := by
  let start : Progress := ⟨source, [source], 0, 0, [], []⟩
  let next : Progress := (start.passed ⟨found, []⟩).moved plan
  by_cases hchanged : plan.applyTo source = source
  · exact ⟨start, p.passLimit, hchanged.symm, rfl, rfl, rfl⟩
  · obtain ⟨remaining, hlimit⟩ := Nat.exists_eq_add_one.mpr p.passLimit_pos
    have hnew : plan.applyTo source ∉ [source] := by simpa using hchanged
    have happly : p.applyFixes (start.passed ⟨found, []⟩) found = .ok (.changed next) :=
      applyFixes_of_new hfix hplan hchanged hnew
    have hwarnings : next.warnings = [] := by
      simp [next, start, Progress.moved, Progress.noted, Progress.passed, hskipped]
    refine ⟨next, remaining, rfl, hwarnings, rfl, ?_⟩
    rw [runText, hlimit]
    exact run_converge_succ (hlint 1) happly

variable {parser : Parser Id} {rule : ActiveRule Id} {source fixed : Text}

/-- If fixing a text once with a rule succeeds, the pipeline that applies the fixes of this rule
alone ends on the same text, with nothing left to fix and nothing to complain about. The path may be
any that makes no difference to the rule, such as the one under which the text was fixed once. -/
theorem run_of_fixOnce (maxPasses : Nat) (hfix : rule.fix = true) (hsigns : rule.Signs)
    (hpath : ∀ text root,
      rule.check (.ofTree path text root) = rule.check (.ofTree "<idempotency>" text root))
    (h : Id.run (rule.fixOnce parser source).run = .ok fixed) :
    ∃ r, Id.run ((ofRule parser rule maxPasses).run path (Text.encode source)).run = .ok r ∧
      r.finalContent = fixed ∧ r.warnings = [] ∧ r.errors = [] ∧
      ∀ d ∈ r.diagnostics, d.isFixable = false := by
  obtain ⟨found, plan, rest, hfound, hplan, rfl, hrest, hnone⟩ :=
    ActiveRule.exists_plan_of_fixOnce (m := Id) h
  obtain ⟨root, hroot, hcheck⟩ := ActiveRule.exists_root_of_lint hfound
  obtain ⟨root', hroot', hcheck'⟩ := ActiveRule.exists_root_of_lint hrest
  rw [← hpath] at hcheck hcheck'
  have hlint := fun pass => run_lint_ofRule maxPasses pass hroot hcheck
  have hlint' := fun pass => run_lint_ofRule maxPasses pass hroot' hcheck'
  obtain ⟨hplan, hskipped⟩ := EditPlan.prepareStrictly_eq_ok_iff.mp hplan
  have hedits : (ofRule parser rule maxPasses).applicableEdits found =
      found.flatMap (·.edits) :=
    applicableEdits_ofRule hfix (hsigns path source root found hcheck)
  rw [← hedits] at hplan
  obtain ⟨s, remaining, hcontent, hwarnings, hfailures, hrun⟩ :=
    exists_run_runText rfl hlint hplan hskipped
  obtain ⟨r, hr, hfinal, hdiagnostics, hwarnings', herrors⟩ :=
    run_converge_of_not_fixable (hcontent ▸ hlint') hnone remaining
  rw [run, decodeSource_encode]
  refine ⟨r, hrun.trans hr, hfinal.trans hcontent, hwarnings'.trans hwarnings,
    herrors.trans hfailures, fun d hd => ?_⟩
  rw [hdiagnostics] at hd
  exact hnone d (Diagnostic.mem_of_mem_arrange hd)

/-- With one pass only, the text that the fix makes is not linted by a second one. -/
theorem run_of_fixOnce_capped :
    let rule : ActiveRule Id := .ofRule Rules.HashSpace.rule
    let parser : Parser Id := fun _ => .ok (.branch .root ⟨0, 0⟩ [])
    Id.run (rule.fixOnce parser ['#', 'A']).run = .ok ['#', ' ', 'A'] ∧
      ∃ r, Id.run ((ofRule parser rule 1).run "a.md" [35, 65]).run = .ok r ∧
        r.finalContent = ['#', ' ', 'A'] ∧ r.warnings = [] ∧ r.errors = [] ∧
        ∀ d ∈ r.diagnostics, d.isFixable = false := by
  intro rule parser
  have hfixed : Id.run (rule.fixOnce parser ['#', 'A']).run = .ok ['#', ' ', 'A'] := by cbv
  have hsigns : rule.Signs :=
    ActiveRule.signs_of_mem_all (by simp [rule, ActiveRule.ofRule, Rules.all])
  have hbytes : Text.encode ['#', 'A'] = [35, 65] := by decide
  exact ⟨hfixed, hbytes ▸ run_of_fixOnce 1 rfl hsigns (fun _ _ => rfl) hfixed⟩

/-- A rule that reads the path may keep quiet under the one that fixing once makes up, and fix the
text under its own. -/
theorem not_run_of_fixOnce_of_path :
    let rule : ActiveRule Id := .ofRule ⟨"X1", "set", "Sets b", true, true, .error, fun ctx =>
      pure (if ctx.snapshot.path = "<idempotency>" ∨ ctx.snapshot.source ≠ ['a'] then []
        else [ctx.report ⟨0, 1⟩ "set" [⟨0, 1, ['b']⟩]])⟩
    let parser : Parser Id := fun _ => .ok (.branch .root ⟨0, 1⟩ [])
    let p : Pipeline Id := ofRule parser rule 10
    let r : PipelineResult := ⟨"doc.md", ['b'], true, [], 2, 1, [], [], false⟩
    rule.fix = true ∧ rule.Signs ∧ Id.run (rule.fixOnce parser ['a']).run = .ok ['a'] ∧
      Id.run (p.run "doc.md" [97]).run = .ok r ∧ r.finalContent ≠ ['a'] := by
  intro rule parser p r
  have hsigns : rule.Signs := by
    intro path source root found hfound d hd
    have hfound : (rule.check (.ofTree path source root)).run = pure (.ok found) := hfound
    obtain rfl := Except.ok.inj hfound
    split at hd
    · cases hd
    · rw [List.mem_singleton.mp hd]
      rfl
  have hfixed : Id.run (rule.fixOnce parser ['a']).run = .ok ['a'] := by cbv
  have hrun : Id.run (p.run "doc.md" [97]).run = .ok r := by cbv
  exact ⟨rfl, hsigns, hfixed, hrun, by decide⟩

end Pipeline
end Tidymark
