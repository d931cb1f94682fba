import Mathlib.Tactic.FinCases
import Tidymark.Proofs.Pipeline.Cancellation
import Tidymark.Proofs.WriteBack.AllOrNothing
import Tidymark.Rules

/-! # Cancellation is all or nothing

With the rules of this library, a run that is cancelled at any time either says so or is not
different. A file is not written to if it says so. -/
namespace Tidymark

open MonadAttach (CanReturn)

section
variable {m : Type → Type} [Monad m] [LawfulMonad m] [MonadAttach m] [LawfulMonadAttach m]
variable [MonadCancel m] {p : Pipeline m} {q : Pipeline Id} {options : WriteOptions}
variable {path : String} {d d' : Disk} {outcome : Except LintError PipelineResult}

/-- A file whose processing is stopped is left alone. -/
theorem eq_of_processFile_cancelled
    (h : CanReturn ((processFile p.onDisk options path).run.run d) (.error .cancelled, d')) :
    d' = d := by
  generalize hstop : (Except.error LintError.cancelled : Except _ PipelineResult) = outcome at h
  cases processed h with
  | unread => rfl
  | unlinted => rfl
  | settled hbytes haims hrun hsettle =>
    cases settles hsettle with
    | kept => cases hstop
    | unsaved hdry hsaved =>
      cases hstop
      cases hsaved
    | unwritten => cases hstop
    | written => cases hstop

/-- A file is left alone where its processing is stopped, and else it is processed as it is where
nothing stops it. -/
theorem orStops_processFile (hstops : p.Stoppable q)
    (h : CanReturn ((processFile p.onDisk options path).run.run d) (outcome, d')) :
    (outcome = .error .cancelled ∧ d' = d) ∨
      (outcome, d') = Id.run ((processFile q.onDisk options path).run.run d) := by
  cases processed h with
  | unread hsource => exact .inr (processFile_of_unread hsource).symm
  | @unlinted e bytes hbytes hrun =>
    rcases Pipeline.orStops_run hstops path bytes (.error e) hrun with hstopped | hsame
    · exact .inl ⟨hstopped, rfl⟩
    · exact .inr (processFile_of_unlinted hbytes hsame.symm).symm
  | @settled bytes _ _ r _ _ hbytes haims hrun hsettle =>
    rcases Pipeline.orStops_run hstops path bytes (.ok r) hrun with hstopped | hsame
    · cases hstopped
    · exact .inr (processFile_of_linted haims hbytes hsame.symm hsettle).symm

end

namespace Rules

/-- A rule of this library, by its place among them, with the settings it runs under. -/
structure Choice where
  place : Fin 10
  severity : Severity
  options : Json
  fix : Bool

section
variable {m : Type → Type} [Monad m] [MonadCancel m]

def Choice.active (c : Choice) : ActiveRule m :=
  ⟨(all : List (Rule m)).get c.place, c.severity, c.options, c.fix⟩

/-- A pipeline of rules of this library, with a parser that has no effects. -/
def pipeline (parser : Text → Except ParseError Node) (choices : List Choice)
    (options : PassOptions) : Pipeline m :=
  ⟨fun source => pure (parser source), choices.map Choice.active, options⟩

end

theorem exists_ofSteps (i : Fin 10) :
    ∃ id name description canFix steps, ∀ {m : Type → Type} [Monad m] [MonadCancel m],
      (all : List (Rule m)).get i = .ofSteps id name description canFix steps := by
  fin_cases i <;> exact ⟨_, _, _, _, _, rfl⟩

variable {m : Type → Type} [Monad m] [LawfulMonad m] [MonadAttach m] [LawfulMonadAttach m]
variable [MonadCancel m]

theorem Choice.stoppable (c : Choice) : (c.active : ActiveRule m).Stoppable c.active := by
  obtain ⟨id, name, description, canFix, steps, hrule⟩ := exists_ofSteps c.place
  have hactive {n : Type → Type} [Monad n] [MonadCancel n] : (c.active : ActiveRule n) =
      ⟨.ofSteps id name description canFix steps, c.severity, c.options, c.fix⟩ := by
    rw [active, hrule]
  rw [hactive, hactive]
  exact ⟨rfl, rfl, fun snapshot =>
    (orStops_ofExcept _ _).bind fun list => orStops_runSteps list⟩

theorem stoppable_pipeline (parser : Text → Except ParseError Node) (choices : List Choice)
    (options : PassOptions) :
    (pipeline parser choices options : Pipeline m).Stoppable (pipeline parser choices options) where
  parser _ := rfl
  rules := by
    induction choices with
    | nil => exact .nil
    | cons c choices ih => exact .cons c.stoppable ih
  options_eq := rfl

/-- A run whose token fires at the question number `k` is cancelled, or it answers what it answers
where the token never fires. It never reports a rule that was cancelled, and a file that it is
cancelled on is left alone, and so is the place of its copy. -/
theorem run_pipeline_cancelled (parser : Text → Except ParseError Node) (choices : List Choice)
    (options : PassOptions) (path : String) (k : Nat) :
    let p : Pipeline Countdown := pipeline parser choices options
    let q : Pipeline Id := pipeline parser choices options
    (∀ bytes, let answer := ((p.run path bytes).run.run k).1
      (answer = .error .cancelled ∨ answer = Id.run (q.run path bytes).run) ∧
        ∀ r, answer = .ok r → ∀ f ∈ r.errors, f.error ≠ .cancelled) ∧
    ∀ (writing : WriteOptions) (d : Disk),
      let after := (((processFile p.onDisk writing path).run.run d).run k).1
      (after.1 = .error .cancelled ∨
        after = Id.run ((processFile q.onDisk writing path).run.run d)) ∧
      (after.1 = .error .cancelled → after.2 = d) := by
  intro p q
  have hreturns {α : Type} (x : Countdown α) : CanReturn x (x.run k).1 := ⟨k, _, rfl⟩
  have hstops : p.Stoppable q := stoppable_pipeline parser choices options
  refine ⟨fun bytes => ⟨?_, ?_⟩, fun writing d => ⟨?_, ?_⟩⟩
  · exact Pipeline.orStops_run hstops path bytes _ (hreturns _)
  · intro r hr
    have hanswer : CanReturn (p.run path bytes).run (.ok r) := hr ▸ hreturns _
    exact Pipeline.uncancelled_run (p := p) hanswer
  · exact (orStops_processFile hstops (hreturns _)).imp_left (·.1)
  · intro hcancelled
    have hafter := hreturns ((processFile p.onDisk writing path).run.run d)
    rw [← Prod.mk.eta (p := (((processFile p.onDisk writing path).run.run d).run k).1),
      hcancelled] at hafter
    exact eq_of_processFile_cancelled hafter

/-- The token fires within the first pass, at the third question. -/
example : (((pipeline (fun _ => .ok (.branch .root ⟨0, 0⟩ [])) [⟨3, .warning, .empty, true⟩]
    ⟨true, 10⟩ : Pipeline Countdown).run "a.md" [35, 65]).run.run 2).1 = .error .cancelled := by
  cbv

end Rules
end Tidymark
