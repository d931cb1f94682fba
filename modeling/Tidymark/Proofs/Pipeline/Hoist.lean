import Tidymark.Pipeline

/-! # Pipelines among other effects

A pipeline uses the effects of its rules and of its parser, and asks whether to stop. In a monad
with more effects than these it does the same, and has none of the others. -/
namespace Tidymark

section
variable {n m : Type → Type} [MonadLiftT n m] {ε α β : Type}

/-- A computation that may fail, in a monad with more effects. -/
def hoist (x : ExceptT ε n α) : ExceptT ε m α := ExceptT.mk (liftM x.run)

variable [Monad n] [Monad m] [LawfulMonadLiftT n m]

theorem hoist_pure (a : α) : (hoist (pure a : ExceptT ε n α) : ExceptT ε m α) = pure a :=
  monadLift_pure (m := n) (n := m) (Except.ok a)

theorem hoist_throw (e : ε) : (hoist (throw e : ExceptT ε n α) : ExceptT ε m α) = throw e :=
  monadLift_pure (m := n) (n := m) (Except.error e)

theorem hoist_ofExcept (x : Except ε α) :
    (hoist (liftM x : ExceptT ε n α) : ExceptT ε m α) = liftM x :=
  monadLift_pure (m := n) (n := m) x

theorem hoist_bind (x : ExceptT ε n α) (f : α → ExceptT ε n β) :
    (hoist (x >>= f) : ExceptT ε m β) = hoist x >>= fun a => hoist (f a) := by
  refine (monadLift_bind (m := n) (n := m) x.run _).trans (bind_congr fun answer => ?_)
  cases answer with
  | ok a => rfl
  | error e => exact monadLift_pure (m := n) (n := m) (Except.error e)

theorem hoist_lift [LawfulMonad n] [LawfulMonad m] (x : n α) :
    (hoist (liftM x : ExceptT ε n α) : ExceptT ε m α) = liftM (liftM x : m α) :=
  monadLift_map (m := n) (n := m) Except.ok x

end

/-- A computation with a state that it does not look at leaves it as it is. -/
theorem run_hoist {n : Type → Type} [Monad n] [LawfulMonad n] {σ ε α : Type} (x : ExceptT ε n α)
    (s : σ) : (hoist x : ExceptT ε (StateT σ n) α).run.run s = (·, s) <$> x.run :=
  (map_eq_pure_bind _ _).symm

section
variable {n m : Type → Type} [MonadLiftT n m]

def Rule.hoist (rule : Rule n) : Rule m :=
  { rule with check := fun ctx => Tidymark.hoist (rule.check ctx) }

def ActiveRule.hoist (r : ActiveRule n) : ActiveRule m :=
  ⟨r.rule.hoist, r.severity, r.options, r.fix⟩

def Pipeline.hoist (p : Pipeline n) : Pipeline m where
  parser source := liftM (p.parser source)
  rules := p.rules.map ActiveRule.hoist
  options := p.options

end

namespace Pipeline

variable {n m : Type → Type} [MonadLiftT n m]
variable (p : Pipeline n) (path : String) (initial : Text) (pass : Nat) (s : Progress)

theorem isApplicable_hoist : (p.hoist : Pipeline m).isApplicable = p.isApplicable := by
  funext d
  simp only [isApplicable, hoist, List.any_map]
  rfl

theorem applyFixes_hoist (diagnostics : List Diagnostic) :
    (p.hoist : Pipeline m).applyFixes s diagnostics = p.applyFixes s diagnostics := by
  simp only [applyFixes, applicableEdits, isApplicable_hoist]
  rfl

variable [Monad n] [Monad m] [LawfulMonad n] [LawfulMonad m] [LawfulMonadLiftT n m]

theorem runRules_hoist (snapshot : Snapshot) (rules : List (ActiveRule n)) :
    (runRules pass snapshot (rules.map ActiveRule.hoist) : ExceptT LintError m Findings) =
      Tidymark.hoist (runRules pass snapshot rules) := by
  induction rules with
  | nil => exact (hoist_pure _).symm
  | cons rule rules ih =>
    simp only [List.map_cons, runRules, hoist_bind, hoist_lift]
    refine bind_congr fun answer => ?_
    cases answer with
    | ok diagnostics => simp only [ih, hoist_bind, hoist_pure]
    | error error =>
      cases error with
      | cancelled => exact (hoist_throw _).symm
      | _ =>
        simp only [ih, hoist_bind, hoist_pure]
        rfl

variable [MonadCancel n] [MonadCancel m]

variable (hcancel : (liftM (MonadCancel.isCancelled : n Bool) : m Bool) = MonadCancel.isCancelled)
include hcancel

theorem lint_hoist (content : Text) :
    (p.hoist : Pipeline m).lint path pass content = Tidymark.hoist (p.lint path pass content) := by
  have hsnapshot : Snapshot.ofSource (p.hoist : Pipeline m).parser path content =
      liftM (Snapshot.ofSource p.parser path content) := by
    simp only [Snapshot.ofSource, hoist, monadLift_bind, monadLift_pure]
  simp only [lint, hoist_bind, hoist_lift, hcancel, hsnapshot]
  refine bind_congr fun cancelled => ?_
  cases cancelled with
  | true => simp [hoist_throw]
  | false =>
    simp only [Bool.false_eq_true, if_false, hoist_bind, hoist_lift]
    refine bind_congr fun answer => ?_
    cases answer with
    | error error => exact (hoist_throw _).symm
    | ok snapshot => exact runRules_hoist pass snapshot p.rules

theorem finishChanged_hoist (capped : Bool) :
    (p.hoist : Pipeline m).finishChanged path initial capped s =
      Tidymark.hoist (p.finishChanged path initial capped s) := by
  simp only [finishChanged, lint_hoist p path _ hcancel, isApplicable_hoist, hoist_bind, hoist_pure]

theorem converge_hoist (remaining : Nat) :
    (p.hoist : Pipeline m).converge path initial remaining s =
      Tidymark.hoist (p.converge path initial remaining s) := by
  induction remaining generalizing s with
  | zero => exact finishChanged_hoist p path initial s hcancel true
  | succ remaining ih =>
    simp only [converge, lint_hoist p path _ hcancel, applyFixes_hoist, hoist_bind, hoist_ofExcept]
    refine bind_congr fun found => bind_congr fun outcome => ?_
    cases outcome with
    | settled same => exact (hoist_pure _).symm
    | repeated next => exact finishChanged_hoist p path initial next hcancel false
    | changed next => exact ih next

/-- The pipeline does not use the other effects. -/
theorem run_hoist (bytes : List UInt8) :
    (p.hoist : Pipeline m).run path bytes = Tidymark.hoist (p.run path bytes) := by
  unfold run
  split
  · exact (hoist_throw _).symm
  · exact converge_hoist p path _ _ hcancel _

end Pipeline
end Tidymark
