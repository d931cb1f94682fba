import Tidymark.Pipeline
import Tidymark.Proofs.Answer
import Tidymark.Proofs.Edit.Application

/-! # One pass

A pass of a pipeline finds what its rules report, turns their fixes into a plan, and leads to one of
three outcomes. The lemmas say what is known of a pass, and of a run behind it, that answers. -/
namespace Tidymark.Pipeline

open MonadAttach (CanReturn)

namespace Progress

/-- In the next pass, which has these findings. -/
def passed (s : Progress) (found : Findings) : Progress :=
  { s with passes := s.passes + 1, failures := s.failures ++ found.failures }

/-- With a warning about the edits that a plan skips, if it skips any. -/
def noted (s : Progress) (plan : EditPlan) : Progress :=
  if plan.skipped.length = 0 then s
  else { s with warnings := s.warnings ++ [.skippedEdits s.passes plan.skipped.length] }

/-- On to the text that a plan makes. -/
def moved (s : Progress) (plan : EditPlan) : Progress :=
  { s with
    content := plan.applyTo s.content
    history := s.history ++ [plan.applyTo s.content]
    fixesApplied := s.fixesApplied + plan.accepted.length
    warnings := (s.noted plan).warnings }

def warned (s : Progress) (warning : PipelineWarning) : Progress :=
  { s with warnings := s.warnings ++ [warning] }

variable (s : Progress) (plan : EditPlan)

@[simp] theorem noted_content : (s.noted plan).content = s.content := by
  unfold noted
  split <;> rfl

@[simp] theorem noted_history : (s.noted plan).history = s.history := by
  unfold noted
  split <;> rfl

@[simp] theorem noted_passes : (s.noted plan).passes = s.passes := by
  unfold noted
  split <;> rfl

@[simp] theorem noted_fixesApplied : (s.noted plan).fixesApplied = s.fixesApplied := by
  unfold noted
  split <;> rfl

@[simp] theorem noted_failures : (s.noted plan).failures = s.failures := by
  unfold noted
  split <;> rfl

end Progress

/-- The progress behind a pass. -/
def Outcome.progress : Outcome → Progress
  | settled same => same
  | repeated next => next
  | changed next => next

/-- What a pass leads to whose fixes have this plan. -/
inductive Leads (s : Progress) (plan : EditPlan) : Outcome → Prop
  | settled (hsame : plan.applyTo s.content = s.content) : Leads s plan (.settled (s.noted plan))
  | repeated {i : Nat} (hchanged : plan.applyTo s.content ≠ s.content)
      (hfound : s.history.findIdx? (· == plan.applyTo s.content) = some i) :
      Leads s plan
        (.repeated ((s.moved plan).warned (.oscillation s.passes (s.history.length - i))))
  | changed (hchanged : plan.applyTo s.content ≠ s.content)
      (hnew : plan.applyTo s.content ∉ s.history) : Leads s plan (.changed (s.moved plan))

section
variable {m : Type → Type} {p : Pipeline m} {s : Progress} {diagnostics : List Diagnostic}
variable {outcome : Outcome}

theorem passLimit_pos (p : Pipeline m) : 0 < p.passLimit :=
  Nat.lt_of_lt_of_le Nat.one_pos (Nat.le_max_right _ _)

/-- There are edits to apply if and only if some diagnostic has a fix that may be applied. -/
theorem applicableEdits_eq_nil_iff {p : Pipeline m} :
    p.applicableEdits diagnostics = [] ↔ diagnostics.any p.isApplicable = false := by
  have hfixable : ∀ d, p.isApplicable d = true → d.edits ≠ [] := by
    intro d happlicable hnil
    simp [isApplicable, Diagnostic.isFixable, hnil] at happlicable
  rw [applicableEdits, List.flatMap_eq_nil_iff, List.any_eq_false]
  constructor
  · intro hnil d hd happlicable
    exact hfixable d happlicable (hnil d (List.mem_filter.mpr ⟨hd, happlicable⟩))
  · intro hnone d hd
    obtain ⟨hd, happlicable⟩ := List.mem_filter.mp hd
    exact absurd happlicable (hnone d hd)

theorem applyFixes_of_not_fix (hfix : p.options.fix = false) :
    p.applyFixes s diagnostics = .ok (.settled s) := by
  simp [applyFixes, hfix, pure, Except.pure]

/-- If fixes are applied, those of a pass that succeeds have a plan, and it decides the outcome. -/
theorem leads_of_applyFixes (hfix : p.options.fix = true)
    (h : p.applyFixes s diagnostics = .ok outcome) :
    ∃ plan, EditPlan.prepare s.content (p.applicableEdits diagnostics) = .ok plan ∧
      Leads s plan outcome := by
  unfold applyFixes at h
  simp only [hfix, Bool.not_true, Bool.false_or] at h
  split at h
  · rename_i hempty
    obtain rfl := Except.ok.inj h
    obtain ⟨hplan, hsame⟩ := EditPlan.applyTo_nil s.content
    rw [List.isEmpty_iff.mp hempty]
    exact ⟨_, hplan, .settled hsame⟩
  · obtain ⟨plan, hplan, h⟩ := bind_eq_ok_iff.mp h
    refine ⟨plan, mapError_eq_ok_iff.mp hplan, ?_⟩
    simp only [← Progress.noted.eq_1, Progress.noted_content, Progress.noted_history,
      Progress.noted_passes, Progress.noted_fixesApplied, Progress.noted_failures] at h
    split at h
    · rename_i hsame
      obtain rfl := Except.ok.inj h
      exact .settled hsame
    · rename_i hchanged
      split at h
      · rename_i i hfound
        obtain rfl := Except.ok.inj h
        exact .repeated hchanged hfound
      · rename_i hnone
        obtain rfl := Except.ok.inj h
        refine .changed hchanged fun hmem => ?_
        simpa using List.findIdx?_eq_none_iff.mp hnone _ hmem

/-- What a pass leads to is in the same pass, and has the same failures. -/
theorem frame_of_applyFixes (h : p.applyFixes s diagnostics = .ok outcome) :
    outcome.progress.passes = s.passes ∧ outcome.progress.failures = s.failures := by
  cases hfix : p.options.fix with
  | false =>
    rw [applyFixes_of_not_fix hfix] at h
    cases h
    exact ⟨rfl, rfl⟩
  | true =>
    obtain ⟨plan, -, hleads⟩ := leads_of_applyFixes hfix h
    cases hleads with
    | settled => exact ⟨s.noted_passes plan, s.noted_failures plan⟩
    | repeated => exact ⟨rfl, rfl⟩
    | changed => exact ⟨rfl, rfl⟩

end

variable {m : Type → Type} [Monad m] [LawfulMonad m] [MonadAttach m] [LawfulMonadAttach m]
variable {p : Pipeline m} {path : String} {initial content : Text} {pass : Nat}
variable {s : Progress} {r : PipelineResult} {found : Findings}

theorem exists_rule_of_mem {snapshot : Snapshot} {rules : List (ActiveRule m)}
    (h : CanReturn (runRules pass snapshot rules) found) {d : Diagnostic}
    (hd : d ∈ found.diagnostics) :
    ∃ rule ∈ rules, ∃ answer, CanReturn (rule.check snapshot) answer ∧ d ∈ answer := by
  induction rules generalizing found with
  | nil =>
    obtain rfl := canReturn_pure h
    cases hd
  | cons rule rules ih =>
    obtain ⟨answer, hanswer, h⟩ := canReturn_bind h
    have hanswer : CanReturn (rule.check snapshot).run answer := canReturn_lift hanswer
    cases answer with
    | ok diagnostics =>
      obtain ⟨others, hothers, h⟩ := canReturn_bind h
      obtain rfl := canReturn_pure h
      rcases List.mem_append.mp hd with hd | hd
      · exact ⟨rule, by simp, diagnostics, hanswer, hd⟩
      · obtain ⟨rule', hmem, hrule'⟩ := ih hothers hd
        exact ⟨rule', by simp [hmem], hrule'⟩
    | error error =>
      cases error with
      | cancelled => exact absurd h not_canReturn_throw
      | _ =>
        obtain ⟨others, hothers, h⟩ := canReturn_bind h
        obtain rfl := canReturn_pure h
        obtain ⟨rule', hmem, hrule'⟩ := ih hothers hd
        exact ⟨rule', by simp [hmem], hrule'⟩

variable [MonadCancel m]

/-- A pass runs the rules on a snapshot of the text with a tree that the parser gives. -/
theorem exists_tree_of_lint (h : CanReturn (p.lint path pass content) found) :
    ∃ root, CanReturn (p.parser content) (.ok root) ∧
      CanReturn (runRules pass (.ofTree path content root) p.rules) found := by
  obtain ⟨cancelled, -, h⟩ := canReturn_bind h
  split at h
  · obtain ⟨_, h, -⟩ := canReturn_bind h
    exact absurd h not_canReturn_throw
  · obtain ⟨answer, hanswer, h⟩ := canReturn_bind h
    have hanswer : CanReturn (Snapshot.ofSource p.parser path content) answer :=
      canReturn_lift hanswer
    obtain ⟨tree, htree, hanswer⟩ := canReturn_bind hanswer
    obtain rfl := canReturn_pure hanswer
    cases tree with
    | error e => exact absurd h not_canReturn_throw
    | ok root => exact ⟨root, htree, h⟩

/-- A run that answers behind its last change has linted the text once more. -/
theorem exists_lint_of_finishChanged {capped : Bool}
    (h : CanReturn (p.finishChanged path initial capped s) r) :
    ∃ found, CanReturn (p.lint path (s.passes + 1) s.content) found ∧
      r = finish path initial
        { s with
          failures := s.failures ++ found.failures
          warnings := s.warnings ++
            if capped && found.diagnostics.any p.isApplicable then [.passCapReached s.passes]
            else [] }
        found.diagnostics := by
  obtain ⟨found, hfound, h⟩ := canReturn_bind h
  exact ⟨found, hfound, (canReturn_pure h).symm⟩

/-- A run that answers within some passes lints the text, and its outcome decides how it goes on. -/
theorem exists_outcome_of_converge {remaining : Nat}
    (h : CanReturn (p.converge path initial (remaining + 1) s) r) :
    ∃ found, CanReturn (p.lint path (s.passes + 1) s.content) found ∧
    ∃ outcome, p.applyFixes (s.passed found) found.diagnostics = .ok outcome ∧
      match outcome with
      | .settled same => r = finish path initial same found.diagnostics
      | .repeated next => CanReturn (p.finishChanged path initial false next) r
      | .changed next => CanReturn (p.converge path initial remaining next) r := by
  obtain ⟨found, hfound, h⟩ := canReturn_bind h
  obtain ⟨outcome, houtcome, h⟩ := canReturn_bind h
  refine ⟨found, hfound, outcome, canReturn_ofExcept houtcome, ?_⟩
  cases outcome with
  | settled same => exact (canReturn_pure h).symm
  | repeated next => exact h
  | changed next => exact h

theorem exists_source_of_run {bytes : List UInt8} (h : CanReturn (p.run path bytes) r) :
    ∃ source, decodeSource bytes = .ok source ∧ CanReturn (p.runText path source) r := by
  unfold run at h
  split at h
  · exact absurd h not_canReturn_throw
  · rename_i source hsource
    exact ⟨source, hsource, h⟩

theorem exists_finish_of_converge {remaining : Nat}
    (h : CanReturn (p.converge path initial remaining s) r) :
    ∃ last diagnostics, r = finish path initial last diagnostics := by
  induction remaining generalizing s with
  | zero =>
    obtain ⟨found, -, rfl⟩ := exists_lint_of_finishChanged h
    exact ⟨_, _, rfl⟩
  | succ remaining ih =>
    obtain ⟨found, -, outcome, -, h⟩ := exists_outcome_of_converge h
    cases outcome with
    | settled same => exact ⟨_, _, h⟩
    | repeated next =>
      obtain ⟨found, -, rfl⟩ := exists_lint_of_finishChanged h
      exact ⟨_, _, rfl⟩
    | changed next => exact ih h

/-- A run writes nothing, and says that the text changed if it did. -/
theorem exists_finish_of_run {bytes : List UInt8} (h : CanReturn (p.run path bytes) r) :
    ∃ source last diagnostics, decodeSource bytes = .ok source ∧
      r = finish path source last diagnostics := by
  obtain ⟨source, hsource, h⟩ := exists_source_of_run h
  obtain ⟨last, diagnostics, rfl⟩ := exists_finish_of_converge h
  exact ⟨source, last, diagnostics, hsource, rfl⟩

end Tidymark.Pipeline
