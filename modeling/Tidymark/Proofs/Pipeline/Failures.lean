import Mathlib
import Tidymark.Proofs.Pipeline.Report
import Tidymark.Proofs.Pipeline.Selection

/-! # Failures of rules

A rule that fails in a pass reports nothing there, and has no other part in the run: a rule that
keeps quiet where this one fails leads to the same result. The failures themselves are all
recorded. They are those of the rules on the text of the first pass, then on that of the second, and
so on to the text that the report is about. -/
namespace Tidymark

open MonadAttach (CanReturn)

/-- No findings instead of a failure. A rule that is told to stop still stops. -/
def soothe : Except RuleError (List Diagnostic) → Except RuleError (List Diagnostic)
  | .ok found => .ok found
  | .error .cancelled => .error .cancelled
  | .error _ => .ok []

section
variable {m : Type → Type} [Monad m]

/-- The rule, but without findings where it fails. -/
def Rule.lenient (rule : Rule m) : Rule m :=
  { rule with check := fun ctx => ExceptT.mk (soothe <$> (rule.check ctx).run) }

def ActiveRule.lenient (r : ActiveRule m) : ActiveRule m :=
  ⟨r.rule.lenient, r.severity, r.options, r.fix⟩

def Pipeline.lenient (p : Pipeline m) : Pipeline m := { p with rules := p.rules.map .lenient }

end

/-- How the rule fails on a snapshot, if it does. -/
def ActiveRule.failure? (r : ActiveRule Id) (pass : Nat) (snapshot : Snapshot) :
    Option RuleFailure :=
  match Id.run (r.check snapshot).run with
  | .ok _ => none
  | .error error => some ⟨r.id, pass, error⟩

namespace Pipeline

/-- The failures of the rules on a text, in the order of the rules. There are none on a text that
does not parse, but no run gets behind such a text. -/
def failuresOn (p : Pipeline Id) (path : String) (pass : Nat) (content : Text) :
    List RuleFailure :=
  match Id.run (p.parser content) with
  | .ok root => p.rules.filterMap (·.failure? pass (.ofTree path content root))
  | .error _ => []

/-- The failures of the rules on the texts of the passes, which are counted from one. -/
def failuresIn (p : Pipeline Id) (path : String) (contents : List Text) : List RuleFailure :=
  (contents.zipIdx 1).flatMap fun (content, pass) => p.failuresOn path pass content

section
variable {m : Type → Type} [Monad m] [LawfulMonad m]

theorem runRules_lenient (pass : Nat) (snapshot : Snapshot) (rules : List (ActiveRule m)) :
    (runRules pass snapshot (rules.map .lenient) : ExceptT LintError m Findings) =
      Findings.keep (fun _ => true) (fun _ => false) <$> runRules pass snapshot rules := by
  induction rules with
  | nil =>
    rw [List.map_nil, runRules, map_pure]
    rfl
  | cons rule rules ih =>
    have hcheck : (liftM (rule.lenient.check snapshot).run : ExceptT LintError m _) =
        soothe <$> liftM (rule.check snapshot).run := liftM_map _ _
    simp only [List.map_cons, runRules, hcheck, bind_map_left, map_bind]
    refine bind_congr fun answer => ?_
    cases answer with
    | ok diagnostics =>
      simp only [soothe, ih, bind_map_left, map_bind, map_pure, Findings.keep, List.filter_append,
        List.filter_true]
    | error error =>
      cases error with
      | cancelled => exact (ExceptT.map_throw _ _).symm
      | _ =>
        simp only [soothe, ih, bind_map_left, map_bind, map_pure, Findings.keep, List.filter_false,
          List.nil_append]

theorem shows_lenient (p : Pipeline m) : Shows (fun _ => true) (fun _ => false) p p.lenient where
  parser_eq := rfl
  options_eq := rfl
  isApplicable_eq := by
    funext d
    simp only [isApplicable, lenient, List.any_map]
    rfl
  shown_of_applicable _ _ := rfl
  runRules_eq pass path content root := runRules_lenient pass _ p.rules

end

variable {p : Pipeline Id} {path : String} {source content : Text} {pass : Nat} {s : Progress}
variable {found : Findings} {r : PipelineResult} {log parsed : List Text}

theorem failuresIn_concat (p : Pipeline Id) (path : String) (contents : List Text)
    (content : Text) :
    p.failuresIn path (contents ++ [content]) =
      p.failuresIn path contents ++ p.failuresOn path (contents.length + 1) content := by
  simp [failuresIn, List.zipIdx_append, Nat.add_comm 1]

theorem failures_of_runRules {snapshot : Snapshot} {rules : List (ActiveRule Id)}
    (h : CanReturn (runRules pass snapshot rules) found) :
    found.failures = rules.filterMap (·.failure? pass snapshot) := by
  induction rules generalizing found with
  | nil =>
    obtain rfl := canReturn_pure h
    rfl
  | cons rule rules ih =>
    obtain ⟨answer, hanswer, h⟩ := canReturn_bind h
    have hanswer : Id.run (rule.check snapshot).run = answer := canReturn_lift hanswer
    rw [List.filterMap_cons, ActiveRule.failure?, hanswer]
    cases answer with
    | ok diagnostics =>
      obtain ⟨others, hothers, h⟩ := canReturn_bind h
      obtain rfl := canReturn_pure h
      exact (ih hothers :)
    | error error =>
      cases error with
      | cancelled => exact absurd h not_canReturn_throw
      | _ =>
        obtain ⟨others, hothers, h⟩ := canReturn_bind h
        obtain rfl := canReturn_pure h
        exact congrArg _ (ih hothers)

theorem failures_of_lint (h : CanReturn (p.lint path pass content) found) :
    found.failures = p.failuresOn path pass content := by
  obtain ⟨root, hroot, hrules⟩ := exists_tree_of_lint h
  have hroot : Id.run (p.parser content) = .ok root := hroot
  rw [failuresOn, hroot]
  exact failures_of_runRules hrules

/-- Behind these texts, the failures are those of the rules on them. -/
structure Progress.Records (p : Pipeline Id) (path : String) (log : List Text) (s : Progress) :
    Prop where
  passes : s.passes = log.length
  failures : s.failures = p.failuresIn path log

theorem Progress.Records.failures_append (hs : s.Records p path log)
    (h : CanReturn (p.lint path (s.passes + 1) s.content) found) :
    s.failures ++ found.failures = p.failuresIn path (log ++ [s.content]) := by
  rw [failuresIn_concat, hs.failures, failures_of_lint h, hs.passes]

theorem Progress.Records.passed (hs : s.Records p path log)
    (h : CanReturn (p.lint path (s.passes + 1) s.content) found) :
    (s.passed found).Records p path (log ++ [s.content]) where
  passes := by simp [Progress.passed, hs.passes]
  failures := hs.failures_append h

theorem Progress.Records.applyFixes {outcome : Outcome} {diagnostics : List Diagnostic}
    (hs : s.Records p path log) (h : p.applyFixes s diagnostics = .ok outcome) :
    outcome.progress.Records p path log := by
  obtain ⟨hpasses, hfailures⟩ := frame_of_applyFixes h
  exact ⟨hpasses.trans hs.passes, hfailures.trans hs.failures⟩

theorem Progress.Records.errors_of_finishChanged {capped : Bool} (hs : s.Records p path log)
    (h : CanReturn (p.finishChanged path source capped s) r)
    (hlog : Id.run ((p.logged.finishChanged path source capped s).run.run log) = (.ok r, parsed)) :
    r.errors = p.failuresIn path parsed := by
  rw [run_finishChanged_logged log h] at hlog
  obtain rfl := (Prod.mk.inj hlog).2
  obtain ⟨found, hfound, rfl⟩ := exists_lint_of_finishChanged h
  exact hs.failures_append hfound

theorem Progress.Records.errors_of_converge {remaining : Nat} (hs : s.Records p path log)
    (h : CanReturn (p.converge path source remaining s) r)
    (hlog : Id.run ((p.logged.converge path source remaining s).run.run log) = (.ok r, parsed)) :
    r.errors = p.failuresIn path parsed := by
  induction remaining generalizing s log with
  | zero => exact hs.errors_of_finishChanged h hlog
  | succ remaining ih =>
    obtain ⟨found, hfound, outcome, houtcome, h⟩ := exists_outcome_of_converge h
    rw [run_converge_logged log hfound houtcome] at hlog
    have hnext := (hs.passed hfound).applyFixes houtcome
    cases outcome with
    | settled same =>
      obtain rfl := h
      obtain rfl := (Prod.mk.inj hlog).2
      exact hnext.failures
    | repeated next => exact hnext.errors_of_finishChanged h hlog
    | changed next => exact ih hnext h hlog

/-- A run that succeeds goes on past every rule that fails, as if the rule reported nothing there.
It records the failures of the rules on the text of each pass, and then on the final content if the
last pass made it. -/
theorem records_failures {bytes : List UInt8} (h : Id.run (p.run path bytes).run = .ok r) :
    Id.run (p.lenient.run path bytes).run = .ok { r with errors := [] } ∧
      ∃ source parsed, decodeSource bytes = .ok source ∧ p.Parses path source r parsed ∧
        r.errors = p.failuresIn path parsed := by
  constructor
  · rw [(shows_lenient p).run_keep path bytes, ExceptT.run_map, Id.run_map, h]
    have hkeep : r.keep (fun _ => true) (fun _ => false) = { r with errors := [] } := by
      simp only [PipelineResult.keep, List.filter_true, List.filter_false]
    exact congrArg Except.ok hkeep
  · obtain ⟨source, hsource, h⟩ := exists_source_of_run (m := Id) h
    obtain ⟨parsed, hlog, hparses⟩ := exists_parses_of_runText h
    have hs : Progress.Records p path [] ⟨source, [source], 0, 0, [], []⟩ := ⟨rfl, rfl⟩
    exact ⟨source, parsed, hsource, hparses, hs.errors_of_converge h hlog⟩

/-- One rule fails on the source and another one on the final content, and a third one goes from the
one to the other. -/
theorem records_failures_twice :
    let failing (id : String) (text : Text) : ActiveRule Id :=
      .ofRule ⟨id, "failing", "Fails on a text", false, true, .error, fun ctx =>
        if ctx.snapshot.source = text then throw (.panicked "bad text") else
          pure [ctx.report ⟨0, 1⟩ "good text"]⟩
    let p : Pipeline Id := ⟨fun _ => .ok (.branch .root ⟨0, 0⟩ []),
      [failing "X1" ['#', 'A'], .ofRule Rules.HashSpace.rule, failing "X2" ['#', ' ', 'A']],
      ⟨true, 1⟩⟩
    let r : PipelineResult := ⟨"a.md", ['#', ' ', 'A'], true,
      [⟨"X1", "failing", ⟨0, 1⟩, ⟨⟨1, 1⟩, ⟨1, 2⟩⟩, "good text", .error, none, []⟩], 1, 1, [],
      [⟨"X1", 1, .panicked "bad text"⟩, ⟨"X2", 2, .panicked "bad text"⟩], false⟩
    Id.run (p.run "a.md" [35, 65]).run = .ok r ∧
      Id.run (p.lenient.run "a.md" [35, 65]).run = .ok { r with errors := [] } ∧
      ∃ source parsed, decodeSource [35, 65] = .ok source ∧ p.Parses "a.md" source r parsed ∧
        r.errors = p.failuresIn "a.md" parsed := by
  intro failing p r
  have hrun : Id.run (p.run "a.md" [35, 65]).run = .ok r := by cbv
  exact ⟨hrun, records_failures hrun⟩

end Pipeline
end Tidymark
