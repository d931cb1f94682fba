import Mathlib.Data.List.Forall2
import Tidymark.Proofs.Pipeline.Pass

/-! # Runs that are cancelled

A computation that is asked to stop in between stops with an error that says so, or it answers what
it would have answered anyway. Every layer keeps this: the steps of a rule, the rules of a pass, and
the passes of a run. -/
namespace Tidymark

open MonadAttach (CanReturn)

section
variable {m : Type → Type} [Monad m] [LawfulMonad m] [MonadAttach m] [LawfulMonadAttach m]
variable {ε ε' α β : Type} {stop : ε} {x : ExceptT ε m α} {y : ExceptT ε Id α}

/-- The computation answers that it was stopped, or what the pure one answers. -/
def OrStops (stop : ε) (x : ExceptT ε m α) (y : ExceptT ε Id α) : Prop :=
  ∀ answer, CanReturn x.run answer → answer = .error stop ∨ answer = Id.run y.run

theorem orStops_pure (stop : ε) (a : α) : OrStops stop (pure a : ExceptT ε m α) (pure a) :=
  fun _ h => .inr (canReturn_pure (m := m) h).symm

theorem orStops_throw (stop e : ε) : OrStops stop (throw e : ExceptT ε m α) (throw e) :=
  fun _ h => .inr (canReturn_pure (m := m) h).symm

theorem orStops_ofExcept (stop : ε) (answer : Except ε α) :
    OrStops stop (liftM answer : ExceptT ε m α) (liftM answer) :=
  fun _ h => .inr (canReturn_pure (m := m) h).symm

theorem orStops_lift (stop : ε) (y : Id α) :
    OrStops stop (liftM (pure (Id.run y) : m α) : ExceptT ε m α) (liftM y) := by
  rw [liftM_pure]
  exact orStops_pure stop (Id.run y)

/-- A computation that stops may do so before anything. -/
theorem orStops_stop (stop : ε) (y : ExceptT ε Id α) :
    OrStops stop (throw stop : ExceptT ε m α) y :=
  fun _ h => .inl (canReturn_pure (m := m) h).symm

theorem orStops_stop_bind (stop : ε) (f : β → ExceptT ε m α) (y : ExceptT ε Id α) :
    OrStops stop (throw stop >>= f) y :=
  fun _ h => .inl (canReturn_pure (m := m) (by simpa using h)).symm

theorem OrStops.bind (h : OrStops stop x y) {f : α → ExceptT ε m β} {g : α → ExceptT ε Id β}
    (hf : ∀ a, OrStops stop (f a) (g a)) : OrStops stop (x >>= f) (y >>= g) := by
  intro answer hanswer
  obtain ⟨first, hfirst, hanswer⟩ := canReturn_bind (m := m) hanswer
  have hy : Id.run (y >>= g).run = Id.run (ExceptT.bindCont g (Id.run y.run)) := rfl
  rcases h first hfirst with rfl | hsame
  · exact .inl (canReturn_pure (m := m) hanswer).symm
  · rw [hy, ← hsame]
    cases first with
    | error e => exact .inr (canReturn_pure (m := m) hanswer).symm
    | ok a => exact hf a answer hanswer

/-- Only one of the two is ever told to stop. -/
theorem orStops_ask {question : m Bool} {f : Bool → ExceptT ε m α} {g : Bool → ExceptT ε Id α}
    (hyes : ∀ y, OrStops stop (f true) y) (hno : OrStops stop (f false) (g false)) :
    OrStops stop (liftM question >>= f) (liftM (MonadCancel.isCancelled : Id Bool) >>= g) := by
  intro answer hanswer
  have hrun : (liftM question >>= f : ExceptT ε m α).run = question >>= fun b => (f b).run :=
    ExceptT.run_bind_lift question f
  rw [hrun] at hanswer
  obtain ⟨b, -, hanswer⟩ := canReturn_bind hanswer
  cases b with
  | true => exact hyes _ answer hanswer
  | false => exact hno answer hanswer

/-- A computation whose errors are looked at may go on behind them, but not if it was stopped. -/
theorem OrStops.handle {stop' : ε'} (h : OrStops stop x y) {f : Except ε α → ExceptT ε' m β}
    {g : Except ε α → ExceptT ε' Id β} (hstop : f (.error stop) = throw stop')
    (hf : ∀ answer, OrStops stop' (f answer) (g answer)) :
    OrStops stop' (liftM x.run >>= f) (liftM y.run >>= g) := by
  intro answer hanswer
  have hrun : (liftM x.run >>= f : ExceptT ε' m β).run = x.run >>= fun first => (f first).run :=
    ExceptT.run_bind_lift x.run f
  have hy : Id.run (liftM y.run >>= g : ExceptT ε' Id β).run = Id.run (g (Id.run y.run)).run := rfl
  rw [hrun] at hanswer
  obtain ⟨first, hfirst, hanswer⟩ := canReturn_bind hanswer
  rcases h first hfirst with rfl | hsame
  · rw [hstop] at hanswer
    exact .inl (canReturn_pure (m := m) hanswer).symm
  · rw [hy, ← hsame]
    exact hf first answer hanswer

variable [MonadCancel m]

theorem orStops_poll : OrStops .cancelled (poll : ExceptT RuleError m Unit) poll :=
  orStops_ask (orStops_stop _) (orStops_pure _ ())

theorem orStops_runSteps (steps : List (Except RuleError (List Diagnostic))) :
    OrStops .cancelled (runSteps steps : ExceptT RuleError m _) (runSteps steps) := by
  induction steps with
  | nil => exact orStops_pure _ _
  | cons step steps ih =>
    exact orStops_poll.bind fun _ => (orStops_ofExcept _ step).bind fun found =>
      ih.bind fun others => orStops_pure _ _

end

/-- A rule that may be stopped, and the same rule where nothing stops it. -/
structure ActiveRule.Stoppable {m : Type → Type} [Monad m] [MonadAttach m] (r : ActiveRule m)
    (q : ActiveRule Id) : Prop where
  id_eq : r.id = q.id
  fix_eq : r.fix = q.fix
  check : ∀ snapshot, OrStops .cancelled (r.check snapshot) (q.check snapshot)

/-- A pipeline whose rules may be stopped, and the same pipeline where nothing stops them. -/
structure Pipeline.Stoppable {m : Type → Type} [Monad m] [MonadAttach m] (p : Pipeline m)
    (q : Pipeline Id) : Prop where
  parser : ∀ source, p.parser source = pure (Id.run (q.parser source))
  rules : List.Forall₂ ActiveRule.Stoppable p.rules q.rules
  options_eq : p.options = q.options

namespace Pipeline

section
variable {m : Type → Type} [Monad m] [MonadAttach m] {p : Pipeline m} {q : Pipeline Id}

theorem Stoppable.isApplicable_eq (h : p.Stoppable q) : p.isApplicable = q.isApplicable := by
  funext d
  have hany : ∀ {rules : List (ActiveRule m)} {others : List (ActiveRule Id)},
      List.Forall₂ ActiveRule.Stoppable rules others →
      (rules.any fun r => r.fix && r.id == d.ruleId) =
        others.any fun r => r.fix && r.id == d.ruleId := by
    intro rules others hrules
    induction hrules with
    | nil => rfl
    | cons hrule _ ih => rw [List.any_cons, List.any_cons, hrule.fix_eq, hrule.id_eq, ih]
  rw [isApplicable, isApplicable, hany h.rules]

theorem Stoppable.applyFixes_eq (h : p.Stoppable q) (s : Progress) (diagnostics : List Diagnostic) :
    p.applyFixes s diagnostics = q.applyFixes s diagnostics := by
  simp only [applyFixes, applicableEdits, h.isApplicable_eq, h.options_eq]

end

section
variable {m : Type → Type} [Monad m] [LawfulMonad m] [MonadAttach m] [LawfulMonadAttach m]

theorem orStops_runRules (pass : Nat) (snapshot : Snapshot) {rules : List (ActiveRule m)}
    {others : List (ActiveRule Id)} (h : List.Forall₂ ActiveRule.Stoppable rules others) :
    OrStops .cancelled (runRules pass snapshot rules) (runRules pass snapshot others) := by
  induction h with
  | nil => exact orStops_pure _ _
  | @cons rule other rules others hrule _ ih =>
    refine (hrule.check snapshot).handle rfl fun answer => ?_
    cases answer with
    | ok diagnostics => exact ih.bind fun found => orStops_pure _ _
    | error error =>
      cases error with
      | cancelled => exact orStops_throw _ _
      | _ =>
        rw [hrule.id_eq]
        exact ih.bind fun found => orStops_pure _ _

variable [MonadCancel m] {p : Pipeline m} {q : Pipeline Id} (h : p.Stoppable q)
variable (path : String) (initial : Text) (s : Progress)
include h

theorem orStops_lint (pass : Nat) (content : Text) :
    OrStops .cancelled (p.lint path pass content) (q.lint path pass content) := by
  have hsnapshot : Snapshot.ofSource p.parser path content =
      pure (Id.run (Snapshot.ofSource q.parser path content)) := by
    simp [Snapshot.ofSource, h.parser]
  unfold lint
  refine orStops_ask (orStops_stop_bind _ _) ?_
  simp only [Bool.false_eq_true, if_false]
  rw [hsnapshot]
  refine (orStops_lift _ _).bind fun answer => ?_
  cases answer with
  | error error => exact orStops_throw _ _
  | ok snapshot => exact orStops_runRules pass snapshot h.rules

theorem orStops_finishChanged (capped : Bool) :
    OrStops .cancelled (p.finishChanged path initial capped s)
      (q.finishChanged path initial capped s) := by
  unfold finishChanged
  refine (orStops_lint h path _ _).bind fun found => ?_
  rw [h.isApplicable_eq]
  exact orStops_pure _ _

theorem orStops_converge (remaining : Nat) :
    OrStops .cancelled (p.converge path initial remaining s)
      (q.converge path initial remaining s) := by
  induction remaining generalizing s with
  | zero => exact orStops_finishChanged h path initial s true
  | succ remaining ih =>
    refine (orStops_lint h path _ _).bind fun found => ?_
    dsimp only
    rw [h.applyFixes_eq]
    refine (orStops_ofExcept _ _).bind fun outcome => ?_
    cases outcome with
    | settled same => exact orStops_pure _ _
    | repeated next => exact orStops_finishChanged h path initial next false
    | changed next => exact ih next

/-- A run that may be stopped is stopped, or it answers what it answers where nothing stops it. -/
theorem orStops_run (bytes : List UInt8) :
    OrStops .cancelled (p.run path bytes) (q.run path bytes) := by
  unfold run
  split
  · exact orStops_throw _ _
  · have hlimit : p.passLimit = q.passLimit := by rw [passLimit, passLimit, h.options_eq]
    rw [runText, runText, hlimit]
    exact orStops_converge h path _ _ _

end

variable {m : Type → Type} [Monad m] [LawfulMonad m] [MonadAttach m] [LawfulMonadAttach m]
variable {p : Pipeline m} {path : String} {initial content : Text} {pass : Nat}
variable {s : Progress} {r : PipelineResult} {found : Findings}

/-- No rule failed because the run was cancelled. -/
def Uncancelled (failures : List RuleFailure) : Prop := ∀ f ∈ failures, f.error ≠ .cancelled

theorem uncancelled_runRules {snapshot : Snapshot} {rules : List (ActiveRule m)}
    (h : CanReturn (runRules pass snapshot rules) found) : Uncancelled found.failures := by
  induction rules generalizing found with
  | nil =>
    obtain rfl := canReturn_pure h
    exact nofun
  | cons rule rules ih =>
    obtain ⟨answer, -, h⟩ := canReturn_bind h
    cases answer with
    | ok diagnostics =>
      obtain ⟨others, hothers, h⟩ := canReturn_bind h
      obtain rfl := canReturn_pure h
      exact (ih hothers :)
    | error error =>
      cases error with
      | cancelled => exact absurd h not_canReturn_throw
      | _ =>
        obtain ⟨others, hothers, h⟩ := canReturn_bind h
        obtain rfl := canReturn_pure h
        exact List.forall_mem_cons.mpr ⟨nofun, ih hothers⟩

variable [MonadCancel m]

theorem uncancelled_passed (hs : Uncancelled s.failures)
    (h : CanReturn (p.lint path pass content) found) :
    Uncancelled (s.failures ++ found.failures) := by
  obtain ⟨root, -, hrules⟩ := exists_tree_of_lint h
  exact List.forall_mem_append.mpr ⟨hs, uncancelled_runRules hrules⟩

theorem uncancelled_finishChanged {capped : Bool} (hs : Uncancelled s.failures)
    (h : CanReturn (p.finishChanged path initial capped s) r) : Uncancelled r.errors := by
  obtain ⟨found, hfound, rfl⟩ := exists_lint_of_finishChanged h
  exact uncancelled_passed hs hfound

theorem uncancelled_converge {remaining : Nat} (hs : Uncancelled s.failures)
    (h : CanReturn (p.converge path initial remaining s) r) : Uncancelled r.errors := by
  induction remaining generalizing s with
  | zero => exact uncancelled_finishChanged hs h
  | succ remaining ih =>
    obtain ⟨found, hfound, outcome, houtcome, h⟩ := exists_outcome_of_converge h
    have hnext : Uncancelled outcome.progress.failures :=
      (frame_of_applyFixes houtcome).2 ▸ uncancelled_passed hs hfound
    cases outcome with
    | settled same =>
      obtain rfl := h
      exact hnext
    | repeated next => exact uncancelled_finishChanged hnext h
    | changed next => exact ih hnext h

/-- A run does not take its own end for a failure of a rule. -/
theorem uncancelled_run {bytes : List UInt8} (h : CanReturn (p.run path bytes) r) :
    Uncancelled r.errors := by
  obtain ⟨source, -, h⟩ := exists_source_of_run h
  exact uncancelled_converge (fun f hf => absurd hf List.not_mem_nil) h

end Pipeline

end Tidymark
