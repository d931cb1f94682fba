import Tidymark.WriteBack

/-! # Runs over many files

Workers take the files in some order and hand in their outcomes in some order. The report lists
them in the order of the input. -/
namespace Tidymark

structure FileReport where
  path : String
  outcome : Except LintError PipelineResult

structure RunReport where
  files : List FileReport
  /-- Whether the run was cancelled before all files were done. -/
  cancelled : Bool

namespace RunReport

def completed (r : RunReport) : List PipelineResult :=
  r.files.filterMap fun f => f.outcome.toOption

def failures (r : RunReport) : List (String × LintError) :=
  r.files.filterMap fun f =>
    match f.outcome with
    | .ok _ => none
    | .error error => some (f.path, error)

def failedCount (r : RunReport) : Nat := r.failures.length

/-- A count over all files that were read and linted. -/
def total (r : RunReport) (count : PipelineResult → Nat) : Nat :=
  r.completed.foldr (fun result n => count result + n) 0

def errorCount (r : RunReport) : Nat := r.total (·.errorCount)

def warningCount (r : RunReport) : Nat := r.total (·.warningCount)

def fixesApplied (r : RunReport) : Nat := r.total (·.fixesApplied)

def diagnosticCount (r : RunReport) : Nat := r.total (·.diagnostics.length)

/-- Whether a file failed, an error is left, or the run was cancelled. -/
def isFailure (r : RunReport) : Bool := r.cancelled || 0 < r.failedCount || 0 < r.errorCount

end RunReport

/-- In which order the files are worked on, by their indices, and in which order the outcomes
arrive, by their places in the first order. -/
structure Schedule where
  work : List Nat
  arrival : List Nat

/-- One file after the other. -/
def Schedule.inOrder (n : Nat) : Schedule := ⟨List.range n, List.range n⟩

/-- What is done with each file. -/
structure Runner (m : Type → Type) where
  pipeline : Pipeline m
  options : WriteOptions

namespace Runner

variable {m : Type → Type} [Monad m] [MonadCancel m] [MonadFiles m]

/-- Works on one file, unless the run is cancelled. -/
def processOne (r : Runner m) (path : String) : m (Except LintError PipelineResult) := do
  if ← MonadCancel.isCancelled then return .error .cancelled
  (processFile r.pipeline r.options path).run

/-- The outcomes of the files with these indices, in this order. -/
def work (r : Runner m) (paths : List String) :
    List Nat → m (List (Nat × Except LintError PipelineResult))
  | [] => return []
  | i :: rest =>
    match paths[i]? with
    | none => work r paths rest
    | some path => do
      let outcome ← r.processOne path
      let others ← work r paths rest
      return (i, outcome) :: others

/-- Puts outcomes in the order of their files. -/
def collect (paths : List String) (arrived : List (Nat × Except LintError PipelineResult)) :
    List FileReport :=
  (arrived.mergeSort fun a b => a.1 ≤ b.1).filterMap fun (i, outcome) =>
    paths[i]?.map fun path => ⟨path, outcome⟩

def isCancelledReport (f : FileReport) : Bool :=
  match f.outcome with
  | .ok _ => false
  | .error error => error.isCancelled

/-- Works on all files. -/
def run (r : Runner m) (schedule : Schedule) (paths : List String) : m RunReport := do
  let done ← r.work paths schedule.work
  let files := collect paths (schedule.arrival.filterMap (done[·]?))
  let cancelled ← MonadCancel.isCancelled
  return ⟨files, cancelled || files.any isCancelledReport⟩

end Runner
end Tidymark
