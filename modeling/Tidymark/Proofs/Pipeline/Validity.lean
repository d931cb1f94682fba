import Mathlib
import Tidymark.Proofs.Pipeline.Visible
import Tidymark.Proofs.Rules.Agreement

/-! # Fixes are valid

The edits of a rule of the library fit their source and can be applied together, whatever tree the
rule looks at. So a run with these rules fails only before it has edits to apply. -/
namespace Tidymark

open MonadAttach (CanReturn)

/-- The errors that come before all fixes: the run is cancelled, or a text cannot be parsed. -/
def LintError.IsEarly (error : LintError) : Prop := error = .cancelled ∨ ∃ e, error = .parse e

namespace Pipeline

/-- If the fixes of a pass cannot be prepared, one of their edits does not fit. -/
theorem exists_misfit_of_applyFixes {m : Type → Type} {p : Pipeline m} {s : Progress}
    {diagnostics : List Diagnostic} {error : LintError}
    (h : p.applyFixes s diagnostics = .error error) :
    ∃ e ∈ p.applicableEdits diagnostics, ¬ e.Fits s.content := by
  by_contra hfits
  push Not at hfits
  have hplan := EditPlan.prepare_eq_ok_iff.mpr ⟨hfits, rfl⟩
  simp only [applyFixes, hplan, ← Progress.noted.eq_1] at h
  split at h
  · cases h
  · change (if _ then _ else _) = _ at h
    split at h
    · cases h
    · split at h <;> cases h

variable {m : Type → Type} [Monad m] [LawfulMonad m] [MonadAttach m] [LawfulMonadAttach m]
variable {p : Pipeline m} {path : String} {initial content : Text} {pass : Nat} {s : Progress}

theorem failsOnly_runRules (pass : Nat) (snapshot : Snapshot) (rules : List (ActiveRule m)) :
    FailsOnly LintError.IsEarly (runRules pass snapshot rules) := by
  induction rules with
  | nil => exact failsOnly_pure _
  | cons rule rules ih =>
    refine (failsOnly_lift _).bind fun answer _ => ?_
    cases answer with
    | ok diagnostics => exact ih.bind fun _ _ => failsOnly_pure _
    | error error =>
      cases error with
      | cancelled => exact failsOnly_throw (.inl rfl)
      | _ => exact ih.bind fun _ _ => failsOnly_pure _

variable [MonadCancel m]

theorem failsOnly_lint : FailsOnly LintError.IsEarly (p.lint path pass content) := by
  refine (failsOnly_lift _).bind fun cancelled _ => ?_
  split
  · exact (failsOnly_throw (.inl rfl)).bind fun _ h => absurd h not_canReturn_throw
  · refine (failsOnly_lift _).bind fun answer _ => ?_
    cases answer with
    | error e => exact failsOnly_throw (.inr ⟨e, rfl⟩)
    | ok snapshot => exact failsOnly_runRules pass snapshot p.rules

theorem failsOnly_finishChanged {capped : Bool} :
    FailsOnly LintError.IsEarly (p.finishChanged path initial capped s) :=
  failsOnly_lint.bind fun _ _ => failsOnly_pure _

/-- A run whose fixes fit in every pass fails only before them. -/
theorem failsOnly_converge
    (hfits : ∀ pass content found, CanReturn (p.lint path pass content) found →
      ∀ e ∈ p.applicableEdits found.diagnostics, e.Fits content) (remaining : Nat) :
    FailsOnly LintError.IsEarly (p.converge path initial remaining s) := by
  induction remaining generalizing s with
  | zero => exact failsOnly_finishChanged
  | succ remaining ih =>
    refine failsOnly_lint.bind fun found hfound => ?_
    refine FailsOnly.bind (failsOnly_ofExcept fun error herror => ?_) fun outcome _ => ?_
    · obtain ⟨e, he, hmisfit⟩ := exists_misfit_of_applyFixes herror
      exact absurd (hfits _ _ found hfound e he) hmisfit
    · cases outcome with
      | settled same => exact failsOnly_pure _
      | repeated next => exact failsOnly_finishChanged
      | changed next => exact ih

theorem failsOnly_run (hrules : ∀ r ∈ p.rules, r.rule ∈ Rules.all) (bytes : List UInt8) :
    FailsOnly LintError.IsEarly (p.run path bytes) := by
  unfold run
  split
  · rename_i e _
    exact failsOnly_throw (.inr ⟨e, rfl⟩)
  · exact failsOnly_converge (fun _ _ found hfound e he =>
      (harmless_of_mem_applicableEdits hrules hfound he).fits) _

end Pipeline

namespace Rules

open Pipeline (failsOnly_run)

variable {m : Type → Type} [Monad m] [LawfulMonad m] [MonadAttach m] [LawfulMonadAttach m]
variable [MonadCancel m]

/-- What a rule of the library proposes fits the source, and its edits can all be applied: two of them
conflict only if they are equal or both delete. This holds for every tree and all options. So a run
with rules of the library never fails because of an edit. -/
theorem prepareStrictly_eq_ok_of_mem_all :
    (∀ rule ∈ (all : List (Rule m)), ∀ ctx source, ctx.Views source →
      ∀ found, CanReturn (rule.check ctx) found →
        (∀ e ∈ found.flatMap (·.edits), e.Fits source) ∧
        (∀ e ∈ found.flatMap (·.edits), ∀ f ∈ found.flatMap (·.edits), e.Agrees f) ∧
        ∃ plan, EditPlan.prepareStrictly source (found.flatMap (·.edits)) = .ok plan) ∧
    ∀ (p : Pipeline m) (path : String) (bytes : List UInt8), (∀ r ∈ p.rules, r.rule ∈ all) →
      ∀ error, ¬ CanReturn (p.run path bytes).run (.error (.edit error)) := by
  refine ⟨fun rule hrule ctx source hctx found hfound => ?_, fun p path bytes hrules error h => ?_⟩
  · have hfits : ∀ e ∈ found.flatMap (·.edits), e.Fits source := by
      intro e he
      obtain ⟨d, hd, he⟩ := List.mem_flatMap.mp he
      exact (harmless_of_mem_all hrule).proposes_fits ctx source hctx found hfound d hd e he
    have hagree := agreeing_of_mem_all hrule ctx source hctx found hfound
    exact ⟨hfits, hagree, _, EditPlan.prepareStrictly_eq_ok hfits hagree⟩
  · rcases failsOnly_run hrules bytes _ h with h | ⟨e, h⟩ <;> cases h

/-- Two headings share a line, one of them reaches behind the end, and both find the same gap. -/
theorem prepareStrictly_eq_ok_shared_gap :
    let tree : Node := .branch .root ⟨0, 5⟩
      [.branch .heading ⟨0, 5⟩ [] (.heading 1 false), .branch .heading ⟨0, 9⟩ [] (.heading 2 false)]
    let ctx : RuleContext := ⟨.ofTree "a.md" ['#', ' ', '\t', 'é', '\n'] tree, "MD019",
      "no-multiple-space-atx", .error, Json.empty⟩
    let p : Pipeline Id := ⟨fun _ => .ok tree, [.ofRule HashGap.rule], ⟨true, 3⟩⟩
    ∃ found, CanReturn ((HashGap.rule : Rule Id).check ctx) found ∧
      found.flatMap (·.edits) = [⟨1, 3, [' ']⟩, ⟨1, 3, [' ']⟩] ∧
      (∃ plan, EditPlan.prepareStrictly ['#', ' ', '\t', 'é', '\n']
        [⟨1, 3, [' ']⟩, ⟨1, 3, [' ']⟩] = .ok plan) ∧
      ∀ error, ¬ CanReturn (p.run "a.md" [35, 32, 9, 195, 169, 10]).run (.error (.edit error)) := by
  intro tree ctx p
  obtain ⟨hprepare, hrun⟩ := prepareStrictly_eq_ok_of_mem_all (m := Id)
  have hctx : ctx.Views ['#', ' ', '\t', 'é', '\n'] := ⟨"a.md", tree, rfl⟩
  have hmem : (HashGap.rule : Rule Id) ∈ all := by simp [all]
  have hfound : ∃ found, CanReturn ((HashGap.rule : Rule Id).check ctx) found ∧
      found.flatMap (·.edits) = [⟨1, 3, [' ']⟩, ⟨1, 3, [' ']⟩] := ⟨_, rfl, by cbv⟩
  obtain ⟨found, hfound, hedits⟩ := hfound
  obtain ⟨-, -, hplan⟩ := hprepare _ hmem ctx _ hctx found hfound
  have hrules : ∀ r ∈ p.rules, r.rule ∈ all := by simp [p, ActiveRule.ofRule, hmem]
  exact ⟨found, hfound, hedits, hedits ▸ hplan, hrun p "a.md" _ hrules⟩

end Rules
end Tidymark
