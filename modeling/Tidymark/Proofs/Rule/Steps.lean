import Tidymark.Proofs.Answer
import Tidymark.Rule

/-! # What rules answer

A rule that looks at one thing after another answers only if every one of its steps does, and then
it reports the findings of its steps one after another. Whether it is asked to stop in between
decides only whether it answers. -/
namespace Tidymark

open MonadAttach (CanReturn)

variable {m : Type → Type} [Monad m] [LawfulMonad m] [MonadAttach m] [LawfulMonadAttach m]
variable [MonadCancel m]

theorem canReturn_runSteps {steps : List (Except RuleError (List Diagnostic))}
    {found : List Diagnostic}
    (h : CanReturn (runSteps steps : ExceptT RuleError m (List Diagnostic)) found) :
    ∃ parts : List (List Diagnostic), steps = parts.map .ok ∧ found = parts.flatten := by
  induction steps generalizing found with
  | nil =>
    obtain rfl := canReturn_pure h
    exact ⟨[], rfl, rfl⟩
  | cons step steps ih =>
    obtain ⟨-, -, h⟩ := canReturn_bind h
    obtain ⟨part, hpart, h⟩ := canReturn_bind h
    obtain ⟨others, hothers, h⟩ := canReturn_bind h
    obtain rfl := canReturn_ofExcept hpart
    obtain ⟨parts, rfl, rfl⟩ := ih hothers
    obtain rfl := canReturn_pure h
    exact ⟨part :: parts, rfl, rfl⟩

namespace Rule

variable {id name description : String} {canFix : Bool}
variable {steps : RuleContext → Except RuleError (List (Except RuleError (List Diagnostic)))}
variable {ctx : RuleContext} {found : List Diagnostic} {d : Diagnostic}

theorem canReturn_ofSteps
    (h : CanReturn ((ofSteps id name description canFix steps : Rule m).check ctx) found) :
    ∃ parts : List (List Diagnostic), steps ctx = .ok (parts.map .ok) ∧ found = parts.flatten := by
  obtain ⟨list, hlist, h⟩ := canReturn_bind h
  obtain ⟨parts, rfl, rfl⟩ := canReturn_runSteps h
  exact ⟨parts, canReturn_ofExcept hlist, rfl⟩

theorem exists_step_of_mem
    (h : CanReturn ((ofSteps id name description canFix steps : Rule m).check ctx) found)
    (hd : d ∈ found) : ∃ list, steps ctx = .ok list ∧ ∃ part, .ok part ∈ list ∧ d ∈ part := by
  obtain ⟨parts, hsteps, rfl⟩ := canReturn_ofSteps h
  obtain ⟨part, hpart, hd⟩ := List.mem_flatten.mp hd
  exact ⟨parts.map .ok, hsteps, part, List.mem_map_of_mem hpart, hd⟩

end Rule
end Tidymark
