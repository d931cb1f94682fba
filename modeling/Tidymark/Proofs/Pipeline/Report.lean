import Mathlib
import Tidymark.Proofs.Pipeline.Convergence
import Tidymark.Proofs.Pipeline.Hoist
import Tidymark.Rules.FinalNewline
import Tidymark.Rules.HashSpace

/-! # Reports describe the final content

A run ends with a lint of the content that it ends with: the last pass does it if it leaves its text
alone, and one more lint does it if not. To see this from outside, the parser of a pipeline is made to
write down each text that it is given. The run stays the same, and the log holds the text of each pass
and, behind a pass that changed its text last, what came of it. -/
namespace Tidymark

open MonadAttach (CanReturn)

section
variable {m : Type → Type} [Monad m] {ε α β : Type}

/-- A computation without effects, as one of a monad that may have some. -/
def ofPure (x : ExceptT ε Id α) : ExceptT ε m α := ExceptT.mk (pure (Id.run x.run))

def Rule.lift (rule : Rule Id) : Rule m := { rule with check := fun ctx => ofPure (rule.check ctx) }

def ActiveRule.lift (r : ActiveRule Id) : ActiveRule m := ⟨r.rule.lift, r.severity, r.options, r.fix⟩

end

/-- Computations that write down the texts that are parsed. -/
abbrev Logging := StateM (List Text)

instance : MonadCancel Logging := ⟨pure false⟩

namespace Pipeline

theorem content_of_settled {m : Type → Type} {p : Pipeline m} {s same : Progress}
    {diagnostics : List Diagnostic}
    (h : p.applyFixes s diagnostics = .ok (.settled same)) : same.content = s.content := by
  cases hfix : p.options.fix with
  | false =>
    rw [applyFixes_of_not_fix hfix] at h
    cases h
    rfl
  | true =>
    obtain ⟨plan, -, hleads⟩ := leads_of_applyFixes hfix h
    cases hleads
    exact s.noted_content plan

theorem exists_warning_of_repeated {m : Type → Type} {p : Pipeline m} {s next : Progress}
    {diagnostics : List Diagnostic} (h : p.applyFixes s diagnostics = .ok (.repeated next)) :
    ∃ w ∈ next.warnings, w.isSkip = false := by
  cases hfix : p.options.fix with
  | false =>
    rw [applyFixes_of_not_fix hfix] at h
    cases h
  | true =>
    obtain ⟨plan, -, hleads⟩ := leads_of_applyFixes hfix h
    cases hleads with
    | repeated _ _ => exact ⟨_, List.mem_append_right _ (List.mem_singleton_self _), rfl⟩

/-- The fixes of these diagnostics have a plan that makes nothing new of the content. -/
def LeavesAlone {m : Type → Type} (p : Pipeline m) (content : Text)
    (diagnostics : List Diagnostic) : Prop :=
  ∃ plan, EditPlan.prepare content (p.applicableEdits diagnostics) = .ok plan ∧
    plan.applyTo content = content

theorem leavesAlone_of_not_applicable {m : Type → Type} {p : Pipeline m} {content : Text}
    {diagnostics : List Diagnostic} (h : diagnostics.any p.isApplicable = false) :
    p.LeavesAlone content diagnostics := by
  have hnone : p.applicableEdits diagnostics = [] := applicableEdits_eq_nil_iff.mpr h
  obtain ⟨hnil, hsame⟩ := EditPlan.applyTo_nil content
  exact ⟨⟨[], [], 0⟩, hnone ▸ hnil, hsame⟩

section
variable {m : Type → Type} [Monad m] [LawfulMonad m]

theorem runRules_lift (pass : Nat) (snapshot : Snapshot) (rules : List (ActiveRule Id)) :
    (runRules pass snapshot (rules.map ActiveRule.lift) : ExceptT LintError m Findings) =
      ofPure (runRules pass snapshot rules) :=
  runRules_hoist pass snapshot rules

variable [MonadAttach m] [LawfulMonadAttach m] [MonadCancel m]
variable {p : Pipeline m} {path : String} {initial : Text} {s : Progress} {r : PipelineResult}

/-- However a run ends, its report is what some lint finds on its final content. If the run
converged, the fixes found there leave the content alone. -/
theorem exists_lint_of_converge {remaining : Nat}
    (h : CanReturn (p.converge path initial remaining s) r) :
    ∃ pass found, CanReturn (p.lint path pass r.finalContent) found ∧
      r.diagnostics = Diagnostic.arrange found.diagnostics ∧
      (p.options.fix = true → (∀ w ∈ r.warnings, w.isSkip = true) →
        p.LeavesAlone r.finalContent found.diagnostics) := by
  induction remaining generalizing s with
  | zero =>
    obtain ⟨found, hfound, rfl⟩ := exists_lint_of_finishChanged h
    refine ⟨_, found, hfound, rfl, fun _ hwarnings => leavesAlone_of_not_applicable ?_⟩
    by_contra happlicable
    rw [Bool.not_eq_false] at happlicable
    have hcap := hwarnings (.passCapReached s.passes) (by simp [finish, happlicable])
    simp [PipelineWarning.isSkip] at hcap
  | succ remaining ih =>
    obtain ⟨found, hfound, outcome, houtcome, h⟩ := exists_outcome_of_converge h
    cases outcome with
    | settled same =>
      obtain rfl := h
      have hcontent : same.content = s.content := (content_of_settled houtcome :)
      refine ⟨_, found, hcontent ▸ hfound, rfl, fun hfix _ => ?_⟩
      obtain ⟨plan, hplan, hleads⟩ := leads_of_applyFixes hfix houtcome
      cases hleads with
      | settled hsame =>
        rw [finish, hcontent]
        exact ⟨plan, hplan, hsame⟩
    | repeated next =>
      obtain ⟨found', hfound', rfl⟩ := exists_lint_of_finishChanged h
      refine ⟨_, found', hfound', rfl, fun _ hwarnings => ?_⟩
      obtain ⟨w, hw, hskip⟩ := exists_warning_of_repeated houtcome
      have hskip' := hwarnings w (List.mem_append_left _ hw)
      rw [hskip] at hskip'
      cases hskip'
    | changed next => exact ih h

end

/-- The pipeline with a parser that writes down each text it is given. -/
def logged (p : Pipeline Id) : Pipeline Logging where
  parser text := modifyGet fun log => (Id.run (p.parser text), log ++ [text])
  rules := p.rules.map ActiveRule.lift
  options := p.options

variable {p : Pipeline Id} {path : String} {source content : Text} {pass : Nat}
variable {s : Progress} {found : Findings} {r : PipelineResult}

theorem isApplicable_logged (p : Pipeline Id) : p.logged.isApplicable = p.isApplicable := by
  funext d
  simp only [isApplicable, logged, List.any_map]
  rfl

theorem applyFixes_logged (p : Pipeline Id) (s : Progress) (diagnostics : List Diagnostic) :
    p.logged.applyFixes s diagnostics = p.applyFixes s diagnostics := by
  simp only [applyFixes, applicableEdits, isApplicable_logged]
  rfl

/-- A lint parses its text once. -/
theorem run_lint_logged (p : Pipeline Id) (path : String) (pass : Nat) (content : Text)
    (log : List Text) :
    Id.run ((p.logged.lint path pass content).run.run log) =
      (Id.run (p.lint path pass content).run, log ++ [content]) := by
  have hrules := runRules_lift (m := Logging) pass
  have hparser : p.parser content = pure (Id.run (p.parser content)) := rfl
  simp only [lint, Snapshot.ofSource, logged, hrules]
  rw [hparser]
  cases Id.run (p.parser content) with
  | error error => rfl
  | ok root => rfl

theorem run_bind_of_ok {ε α β : Type} {x : ExceptT ε Logging α} {f : α → ExceptT ε Logging β}
    {a : α} {log log' : List Text} (h : Id.run (x.run.run log) = (.ok a, log')) :
    Id.run ((x >>= f).run.run log) = Id.run ((f a).run.run log') := by
  rw [ExceptT.run_bind, StateT.run_bind, Id.run_bind, h]

theorem run_lint_logged_of_ok (log : List Text) (h : CanReturn (p.lint path pass content) found) :
    Id.run ((p.logged.lint path pass content).run.run log) = (.ok found, log ++ [content]) := by
  rw [run_lint_logged]
  exact congrArg (·, log ++ [content]) h

theorem run_finishChanged_logged {capped : Bool} (log : List Text)
    (h : CanReturn (p.finishChanged path source capped s) r) :
    Id.run ((p.logged.finishChanged path source capped s).run.run log) =
      (.ok r, log ++ [s.content]) := by
  obtain ⟨found, hfound, rfl⟩ := exists_lint_of_finishChanged h
  rw [finishChanged, run_bind_of_ok (run_lint_logged_of_ok log hfound), isApplicable_logged]
  rfl

/-- A pass parses its text, and its outcome decides what is parsed behind it. -/
theorem run_converge_logged {remaining : Nat} {outcome : Outcome} (log : List Text)
    (hfound : CanReturn (p.lint path (s.passes + 1) s.content) found) :
    p.applyFixes (s.passed found) found.diagnostics = .ok outcome →
    Id.run ((p.logged.converge path source (remaining + 1) s).run.run log) =
      Id.run ((match outcome with
        | .settled same => pure (finish path source same found.diagnostics)
        | .repeated next => p.logged.finishChanged path source false next
        | .changed next => p.logged.converge path source remaining next :
          ExceptT LintError Logging PipelineResult).run.run (log ++ [s.content])) := by
  intro houtcome
  have hrun : Id.run ((liftM (p.logged.applyFixes (s.passed found) found.diagnostics) :
      ExceptT LintError Logging Outcome).run.run (log ++ [s.content])) =
        (.ok outcome, log ++ [s.content]) := by
    rw [applyFixes_logged, houtcome]
    rfl
  rw [converge, run_bind_of_ok (run_lint_logged_of_ok log hfound)]
  exact run_bind_of_ok hrun

/-- Whether the last pass of a run changed its text. Then the text came back, or there was no pass
left. -/
def ChangesLast (p : Pipeline Id) (path : String) (source : Text) (r : PipelineResult) : Prop :=
  p.options.fix = true ∧ p.texts path source r.passesRun ≠ p.texts path source (r.passesRun - 1)

/-- A run parses the text of each pass, and its final content once more if the last pass made it. -/
structure Parses (p : Pipeline Id) (path : String) (source : Text) (r : PipelineResult)
    (parsed : List Text) : Prop where
  texts : ∀ i (hi : i < parsed.length), p.texts path source i = .ok parsed[i]
  length_of_changesLast : p.ChangesLast path source r → parsed.length = r.passesRun + 1
  length_of_not_changesLast : ¬ p.ChangesLast path source r → parsed.length = r.passesRun

namespace Progress.Follows

theorem dropLast_history {texts : Nat → Except LintError Text} (hs : s.Follows texts) :
    s.history.dropLast ++ [s.content] = s.history := by
  have hlength := hs.length_history
  have hne : s.history ≠ [] := by
    intro hnil
    simp [hnil] at hlength
  have hlast := hs.history s.passes (by omega)
  rw [hs.content] at hlast
  conv_rhs => rw [← List.dropLast_append_getLast hne, List.getLast_eq_getElem]
  simp [hlength, ← Except.ok.inj hlast]

/-- The passes so far have parsed all texts but the last. -/
theorem exists_parses (hfix : p.options.fix = true) {remaining : Nat}
    (hs : s.Follows (p.texts path source)) (hone : 1 ≤ s.passes + remaining)
    (h : CanReturn (p.converge path source remaining s) r) :
    ∃ parsed, Id.run ((p.logged.converge path source remaining s).run.run s.history.dropLast) =
      (.ok r, parsed) ∧ p.Parses path source r parsed := by
  induction remaining generalizing s with
  | zero =>
    have hlog := run_finishChanged_logged s.history.dropLast h
    obtain ⟨found, -, rfl⟩ := exists_lint_of_finishChanged h
    rw [hs.dropLast_history] at hlog
    refine ⟨s.history, hlog, hs.history, fun _ => hs.length_history, fun hsame => ?_⟩
    exact absurd ⟨hfix, (hs.distinct s.passes le_rfl (s.passes - 1) (by omega)).symm⟩ hsame
  | succ remaining ih =>
    obtain ⟨found, hfound, outcome, houtcome, h⟩ := exists_outcome_of_converge h
    obtain ⟨plan, hplan, hleads⟩ := leads_of_applyFixes hfix houtcome
    have hnext : p.texts path source (s.passes + 1) = .ok (plan.applyTo s.content) := by
      rw [texts_succ, hs.content]
      exact nextText_eq hfound hplan
    rw [run_converge_logged _ hfound houtcome, hs.dropLast_history]
    cases hleads with
    | settled hsame =>
      obtain rfl := h
      have hpasses : (finish path source ((s.passed found).noted plan)
          found.diagnostics).passesRun = s.passes + 1 := noted_passes _ _
      have hback : p.texts path source (s.passes + 1) = p.texts path source s.passes := by
        rw [hnext, hs.content]
        exact congrArg _ hsame
      refine ⟨s.history, rfl, hs.history, fun hchanges => ?_, fun _ => ?_⟩
      · rw [ChangesLast, hpasses] at hchanges
        exact absurd hback hchanges.2
      · rw [hpasses, hs.length_history]
    | repeated hchanged hj =>
      have hlog := run_finishChanged_logged s.history h
      obtain ⟨found', -, rfl⟩ := exists_lint_of_finishChanged h
      refine ⟨_, hlog, ?_, fun _ => ?_, fun hsame => ?_⟩
      · exact hs.history_concat hnext
      · rw [List.length_append, hs.length_history]
        rfl
      · refine absurd ⟨hfix, fun hback => hchanged ?_⟩ hsame
        have hback : p.texts path source (s.passes + 1) = p.texts path source s.passes := hback
        rw [hnext, hs.content] at hback
        exact Except.ok.inj hback
    | changed _ hnew =>
      have hmoved : ((s.passed found).moved plan).Follows (p.texts path source) :=
        hs.moved hnext hnew
      have hlog : ((s.passed found).moved plan).history.dropLast = s.history :=
        List.dropLast_concat
      have hpasses : ((s.passed found).moved plan).passes = s.passes + 1 := rfl
      have hparses := ih hmoved (by omega) h
      rwa [hlog] at hparses

end Progress.Follows

/-- A pass that applies no fixes is the only one. -/
theorem exists_parses_of_not_fix (hfix : p.options.fix = false) {remaining : Nat}
    (h : CanReturn (p.converge path source (remaining + 1) ⟨source, [source], 0, 0, [], []⟩) r) :
    ∃ parsed, Id.run ((p.logged.converge path source (remaining + 1)
      ⟨source, [source], 0, 0, [], []⟩).run.run []) = (.ok r, parsed) ∧
        p.Parses path source r parsed := by
  obtain ⟨found, hfound, outcome, houtcome, h⟩ := exists_outcome_of_converge h
  rw [run_converge_logged _ hfound houtcome]
  rw [applyFixes_of_not_fix hfix] at houtcome
  cases houtcome
  obtain rfl := h
  refine ⟨[source], rfl, fun i hi => ?_, fun hchanges => ?_, fun _ => rfl⟩
  · obtain rfl : i = 0 := by simpa using hi
    rfl
  · exact absurd hchanges.1 (by simp [hfix])

theorem exists_parses_of_runText (h : Id.run (p.runText path source).run = .ok r) :
    ∃ parsed, Id.run ((p.logged.runText path source).run.run []) = (.ok r, parsed) ∧
      p.Parses path source r parsed := by
  obtain ⟨remaining, hlimit⟩ := Nat.exists_eq_add_one.mpr p.passLimit_pos
  have hlogged : p.logged.passLimit = remaining + 1 := hlimit
  rw [runText, hlimit] at h
  rw [runText, hlogged]
  cases hfix : p.options.fix with
  | false => exact exists_parses_of_not_fix hfix h
  | true =>
    have hs : Progress.Follows (p.texts path source) ⟨source, [source], 0, 0, [], []⟩ := .init rfl
    exact hs.exists_parses hfix (by simp) h

/-- The report of a run that succeeds is what linting its final content finds, in order. To get there
the run parses the text of each pass, and once more only if the last pass changed its text. -/
theorem describes_run {bytes : List UInt8} (h : Id.run (p.run path bytes).run = .ok r) :
    ∃ source, decodeSource bytes = .ok source ∧
      (∀ pass, ∃ found, Id.run (p.lint path pass r.finalContent).run = .ok found ∧
        r.diagnostics = Diagnostic.arrange found.diagnostics) ∧
      ∃ parsed, Id.run ((p.logged.run path bytes).run.run []) = (.ok r, parsed) ∧
        p.Parses path source r parsed := by
  obtain ⟨source, hsource, h⟩ := exists_source_of_run (m := Id) h
  refine ⟨source, hsource, fun pass => ?_, ?_⟩
  · obtain ⟨pass', found', hfound', hreport, -⟩ := exists_lint_of_converge h
    obtain ⟨found, hfound, hsame⟩ := exists_lint_of_lint hfound' pass
    exact ⟨found, hfound, hsame ▸ hreport⟩
  · obtain ⟨parsed, hlog, hparses⟩ := exists_parses_of_runText h
    refine ⟨parsed, ?_, hparses⟩
    rw [run, hsource]
    exact hlog

/-- The only pass inserts a space, and what is reported at the end of the text moves by it. -/
theorem describes_run_shifted :
    let ending : ActiveRule Id := { ActiveRule.ofRule Rules.FinalNewline.rule with fix := false }
    let p : Pipeline Id :=
      ⟨fun _ => .ok (.branch .root ⟨0, 0⟩ []), [.ofRule Rules.HashSpace.rule, ending], ⟨true, 1⟩⟩
    let r : PipelineResult := ⟨"a.md", ['#', ' ', 'A'], true,
      [⟨"MD047", "single-trailing-newline", ⟨3, 3⟩, ⟨⟨1, 4⟩, ⟨1, 4⟩⟩,
        "Files should end with a single newline character", .error, none, [⟨3, 3, ['\n']⟩]⟩],
      1, 1, [], [], false⟩
    Id.run (p.run "a.md" [35, 65]).run = .ok r ∧
      Id.run ((p.logged.run "a.md" [35, 65]).run.run []) =
        (.ok r, [['#', 'A'], ['#', ' ', 'A']]) ∧
      p.Parses "a.md" ['#', 'A'] r [['#', 'A'], ['#', ' ', 'A']] := by
  intro ending p r
  have hrun : Id.run (p.run "a.md" [35, 65]).run = .ok r := by cbv
  have hdecoded : decodeSource [35, 65] = .ok ['#', 'A'] := by cbv
  have hlog : Id.run ((p.logged.run "a.md" [35, 65]).run.run []) =
      (.ok r, [['#', 'A'], ['#', ' ', 'A']]) := by cbv
  obtain ⟨source, hsource, -, parsed, hparsed, hparses⟩ := describes_run hrun
  obtain rfl := Except.ok.inj (hdecoded.symm.trans hsource)
  obtain rfl := (Prod.mk.inj (hparsed.symm.trans hlog)).2
  exact ⟨hrun, hlog, hparses⟩

end Pipeline
end Tidymark
