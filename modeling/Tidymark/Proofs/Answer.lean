import Mathlib.Control.Monad.Basic

/-! # What computations can answer

A computation with effects can answer a value if some run of it ends well with that value. The
lemmas take such an answer apart along the computation. -/
namespace Tidymark

open MonadAttach (CanReturn)

variable {m : Type → Type} [Monad m] [LawfulMonad m] [MonadAttach m] [LawfulMonadAttach m]
variable {ε α β : Type}

/-- A sequence of two results is one if both are. -/
theorem bind_eq_ok_iff {x : Except ε α} {f : α → Except ε β} {b : β} :
    x >>= f = .ok b ↔ ∃ a, x = .ok a ∧ f a = .ok b := by
  constructor
  · intro h
    cases x with
    | error e => cases h
    | ok a => exact ⟨a, rfl, h⟩
  · rintro ⟨a, rfl, h⟩
    exact h

theorem map_eq_ok_iff {x : Except ε α} {f : α → β} {b : β} :
    x.map f = .ok b ↔ ∃ a, x = .ok a ∧ f a = b := by
  cases x with
  | error e => exact ⟨nofun, nofun⟩
  | ok a => exact ⟨fun h => ⟨a, rfl, Except.ok.inj h⟩, fun ⟨_, h, hb⟩ => by cases h; exact hb ▸ rfl⟩

theorem mapError_eq_ok_iff {x : Except ε α} {f : ε → β} {a : α} :
    x.mapError f = .ok a ↔ x = .ok a := by
  cases x with
  | error e => exact ⟨nofun, nofun⟩
  | ok a' => exact ⟨fun h => congrArg _ (Except.ok.inj h), fun h => congrArg _ (Except.ok.inj h)⟩

theorem canReturn_pure {a b : α} (h : CanReturn (pure a : m α) b) : a = b :=
  LawfulMonadAttach.eq_of_canReturn_pure h

theorem canReturn_bind {x : m α} {f : α → m β} {b : β} (h : CanReturn (x >>= f) b) :
    ∃ a, CanReturn x a ∧ CanReturn (f a) b :=
  LawfulMonadAttach.canReturn_bind_imp' h

/-- What follows a computation only counts for what the computation can answer. -/
theorem bind_congr_of_canReturn {x : m α} {f g : α → m β} (h : ∀ a, CanReturn x a → f a = g a) :
    x >>= f = x >>= g := by
  have hx := WeaklyLawfulMonadAttach.map_attach (x := x)
  rw [← hx, bind_map_left, bind_map_left]
  exact bind_congr fun a => h a.1 a.2

theorem not_canReturn_throw {e : ε} {a : α} : ¬ CanReturn (throw e : ExceptT ε m α) a := by
  intro h
  have h' : Except.error e = Except.ok a := canReturn_pure (m := m) h
  cases h'

/-- A result that is there already is the only answer of a computation made of it. -/
theorem canReturn_ofExcept {x : Except ε α} {a : α}
    (h : CanReturn (liftM x : ExceptT ε m α) a) : x = .ok a :=
  canReturn_pure (m := m) h

theorem canReturn_lift {x : m α} {a : α} (h : CanReturn (liftM x : ExceptT ε m α) a) :
    CanReturn x a := by
  have h' : CanReturn (Except.ok (ε := ε) <$> x) (.ok a) := h
  obtain ⟨a', hx, ha⟩ := LawfulMonadAttach.canReturn_map_imp' h'
  cases ha
  exact hx

/-- If the computation fails, then with an error of the class. -/
def FailsOnly (P : ε → Prop) (x : ExceptT ε m α) : Prop := ∀ e, CanReturn x.run (.error e) → P e

section
variable {P : ε → Prop}

theorem failsOnly_pure (a : α) : FailsOnly P (pure a : ExceptT ε m α) := by
  intro e h
  have h' : Except.ok a = Except.error e := canReturn_pure (m := m) h
  cases h'

theorem failsOnly_throw {e : ε} (h : P e) : FailsOnly P (throw e : ExceptT ε m α) := by
  intro e' h'
  have heq : (Except.error e : Except ε α) = .error e' := canReturn_pure (m := m) h'
  obtain rfl := Except.error.inj heq
  exact h

theorem failsOnly_lift (x : m α) : FailsOnly P (liftM x : ExceptT ε m α) := by
  intro e h
  have h' : CanReturn (Except.ok (ε := ε) <$> x) (.error e) := h
  obtain ⟨a, -, ha⟩ := LawfulMonadAttach.canReturn_map_imp' h'
  cases ha

theorem failsOnly_ofExcept {x : Except ε α} (h : ∀ e, x = .error e → P e) :
    FailsOnly P (liftM x : ExceptT ε m α) :=
  fun e he => h e (canReturn_pure (m := m) he)

/-- A sequence fails as its first part, or as its second one on an answer of the first. -/
theorem FailsOnly.bind {x : ExceptT ε m α} {f : α → ExceptT ε m β} (h : FailsOnly P x)
    (hf : ∀ a, CanReturn x a → FailsOnly P (f a)) : FailsOnly P (x >>= f) := by
  intro e he
  obtain ⟨answer, hanswer, he⟩ := canReturn_bind (m := m) he
  cases answer with
  | ok a => exact hf a hanswer e he
  | error e' =>
    have heq : (Except.error e' : Except ε β) = .error e := canReturn_pure (m := m) he
    obtain rfl := Except.error.inj heq
    exact h e' hanswer

end
end Tidymark
