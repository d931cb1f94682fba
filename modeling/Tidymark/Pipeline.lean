import Tidymark.Edit.Plan
import Tidymark.Error
import Tidymark.Rule

/-! # The pipeline

A pass parses a text, runs every rule, and applies the fixes that the rules propose. Passes follow
one another until nothing is left to fix, the text does not change, a text comes back, or there
have been enough passes. -/
namespace Tidymark

structure PassOptions where
  /-- Whether fixes are applied; otherwise there is one pass. -/
  fix : Bool
  maxPasses : Nat
  deriving DecidableEq, Repr

inductive PipelineWarning where
  /-- There was still something to fix after the last pass. -/
  | passCapReached (passes : Nat)
  /-- A pass brought back a text from some passes earlier. -/
  | oscillation (pass cycleLength : Nat)
  | skippedEdits (pass count : Nat)
  deriving DecidableEq, Repr

def PipelineWarning.message : PipelineWarning → String
  | passCapReached passes => "fixes did not converge within " ++ toString passes ++ " passes"
  | oscillation pass cycleLength =>
    "fixes oscillate: pass " ++ toString pass ++ " repeated content from " ++
      toString cycleLength ++ " pass(es) earlier"
  | skippedEdits pass count =>
    toString count ++ " conflicting edit(s) skipped in pass " ++ toString pass

/-- A rule that failed in a pass. Passes are counted from one. -/
structure RuleFailure where
  ruleId : String
  pass : Nat
  error : RuleError
  deriving DecidableEq, Repr

structure PipelineResult where
  path : String
  finalContent : Text
  changed : Bool
  /-- What the rules report on the final content. -/
  diagnostics : List Diagnostic
  passesRun : Nat
  /-- The number of edits applied in all passes. -/
  fixesApplied : Nat
  warnings : List PipelineWarning
  errors : List RuleFailure
  /-- Whether the final content is in the file. -/
  written : Bool
  deriving DecidableEq, Repr

namespace PipelineResult

def count (r : PipelineResult) (severity : Severity) : Nat :=
  r.diagnostics.countP (·.severity == severity)

def errorCount (r : PipelineResult) : Nat := r.count .error

def warningCount (r : PipelineResult) : Nat := r.count .warning

def fixableCount (r : PipelineResult) : Nat := r.diagnostics.countP (·.isFixable)

end PipelineResult

structure Pipeline (m : Type → Type) where
  parser : Parser m
  rules : List (ActiveRule m)
  options : PassOptions

namespace Pipeline

/-- What the rules found and where they failed. -/
structure Findings where
  diagnostics : List Diagnostic
  failures : List RuleFailure

/-- The state of a run between two passes. -/
structure Progress where
  content : Text
  /-- The texts so far, the first one first. -/
  history : List Text
  passes : Nat
  fixesApplied : Nat
  warnings : List PipelineWarning
  failures : List RuleFailure

/-- What a pass leads to. -/
inductive Outcome where
  /-- The content stays. -/
  | settled (same : Progress)
  /-- The content changed to one that occurred before. -/
  | repeated (next : Progress)
  | changed (next : Progress)

/-- At least one pass runs. -/
def passLimit {m : Type → Type} (p : Pipeline m) : Nat := max p.options.maxPasses 1

/-- Whether a diagnostic has a fix that may be applied: fixes are allowed by the id of a rule. -/
def isApplicable {m : Type → Type} (p : Pipeline m) (d : Diagnostic) : Bool :=
  d.isFixable && p.rules.any fun r => r.fix && r.id == d.ruleId

/-- The edits that a pass applies. -/
def applicableEdits {m : Type → Type} (p : Pipeline m) (diagnostics : List Diagnostic) :
    List Edit :=
  (diagnostics.filter p.isApplicable).flatMap (·.edits)

/-- The effect of a pass that found `diagnostics`; its number is already counted in `s`. -/
def applyFixes {m : Type → Type} (p : Pipeline m) (s : Progress) (diagnostics : List Diagnostic) :
    Except LintError Outcome := do
  let edits := p.applicableEdits diagnostics
  if !p.options.fix || edits.isEmpty then return .settled s
  let plan ← (EditPlan.prepare s.content edits).mapError .edit
  let skips := plan.skipped.length
  let s :=
    if skips = 0 then s else { s with warnings := s.warnings ++ [.skippedEdits s.passes skips] }
  let content := plan.applyTo s.content
  if content = s.content then return .settled s
  let next := { s with
    content := content
    history := s.history ++ [content]
    fixesApplied := s.fixesApplied + plan.accepted.length }
  match s.history.findIdx? (· == content) with
  | some i =>
    let warning := .oscillation s.passes (s.history.length - i)
    return .repeated { next with warnings := s.warnings ++ [warning] }
  | none => return .changed next

variable {m : Type → Type} [Monad m] [MonadCancel m]

/-- Runs the rules one after another. A rule that fails leaves the others alone. -/
def runRules (pass : Nat) (snapshot : Snapshot) :
    List (ActiveRule m) → ExceptT LintError m Findings
  | [] => pure ⟨[], []⟩
  | rule :: rest => do
    match ← (rule.check snapshot).run with
    | .ok diagnostics =>
      let others ← runRules pass snapshot rest
      return ⟨diagnostics ++ others.diagnostics, others.failures⟩
    | .error .cancelled => throw .cancelled
    | .error error =>
      let others ← runRules pass snapshot rest
      return ⟨others.diagnostics, ⟨rule.id, pass, error⟩ :: others.failures⟩

/-- Parses a text and runs all rules on it. -/
def lint (p : Pipeline m) (path : String) (pass : Nat) (content : Text) :
    ExceptT LintError m Findings := do
  if ← (MonadCancel.isCancelled : m Bool) then throw .cancelled
  match ← (Snapshot.ofSource p.parser path content : m _) with
  | .error error => throw (.parse error)
  | .ok snapshot => runRules pass snapshot p.rules

/-- The result of a run that ends with this content. -/
def finish (path : String) (initial : Text) (s : Progress) (diagnostics : List Diagnostic) :
    PipelineResult where
  path := path
  finalContent := s.content
  changed := s.content != initial
  diagnostics := Diagnostic.arrange diagnostics
  passesRun := s.passes
  fixesApplied := s.fixesApplied
  warnings := s.warnings
  errors := s.failures
  written := false

/-- Lints a changed text once more, for the report. -/
def finishChanged (p : Pipeline m) (path : String) (initial : Text) (capped : Bool)
    (s : Progress) : ExceptT LintError m PipelineResult := do
  let found ← p.lint path (s.passes + 1) s.content
  let s := { s with failures := s.failures ++ found.failures }
  let warnings :=
    if capped && found.diagnostics.any p.isApplicable then [.passCapReached s.passes] else []
  return finish path initial { s with warnings := s.warnings ++ warnings } found.diagnostics

/-- Runs passes, `remaining` at most. -/
def converge (p : Pipeline m) (path : String) (initial : Text) :
    Nat → Progress → ExceptT LintError m PipelineResult
  | 0, s => p.finishChanged path initial true s
  | remaining + 1, s => do
    let pass := s.passes + 1
    let found ← p.lint path pass s.content
    let s := { s with passes := pass, failures := s.failures ++ found.failures }
    match ← p.applyFixes s found.diagnostics with
    | .settled s => return finish path initial s found.diagnostics
    | .repeated next => p.finishChanged path initial false next
    | .changed next => converge p path initial remaining next

/-- Runs the pipeline on a text. -/
def runText (p : Pipeline m) (path : String) (source : Text) :
    ExceptT LintError m PipelineResult :=
  p.converge path source p.passLimit ⟨source, [source], 0, 0, [], []⟩

/-- Runs the pipeline on the bytes of a file. -/
def run (p : Pipeline m) (path : String) (bytes : List UInt8) :
    ExceptT LintError m PipelineResult := do
  match decodeSource bytes with
  | .error error => throw (.parse error)
  | .ok source => p.runText path source

end Pipeline
end Tidymark
