import Tidymark.Text

/-! # Visible characters

What a reader sees of a text are its characters that are no white space. A text erases to another
if some characters of a class are left out of it and all others stay, in their order. -/
namespace Tidymark.Text

/-- The characters that are no white space. -/
def visible (t : Text) : Text := t.filter fun c => !isWhitespace c

@[simp] theorem visible_append (s t : Text) : visible (s ++ t) = visible s ++ visible t :=
  List.filter_append ..

theorem visible_eq_nil {t : Text} (h : ∀ c ∈ t, isWhitespace c = true) : visible t = [] := by
  rw [visible, List.filter_eq_nil_iff]
  intro c hc
  simp [h c hc]

/-- `Erases p s t`: the text `t` is `s` without some characters of the class `p`. -/
inductive Erases (p : Char → Prop) : Text → Text → Prop
  | nil : Erases p [] []
  | keep (c : Char) {s t : Text} (h : Erases p s t) : Erases p (c :: s) (c :: t)
  | drop {c : Char} {s t : Text} (hc : p c) (h : Erases p s t) : Erases p (c :: s) t

variable {p : Char → Prop} {s s' t t' u : Text}

@[refl] theorem Erases.refl (t : Text) : Erases p t t := by
  induction t with
  | nil => exact .nil
  | cons c t ih => exact .keep c ih

theorem Erases.trans (h : Erases p s t) (h' : Erases p t u) : Erases p s u := by
  induction h generalizing u with
  | nil => exact h'
  | keep c h ih =>
    cases h' with
    | keep _ h' => exact .keep c (ih h')
    | drop hc h' => exact .drop hc (ih h')
  | drop hc h ih => exact .drop hc (ih h')

theorem Erases.mono {q : Char → Prop} (h : Erases p s t) (hpq : ∀ c, p c → q c) :
    Erases q s t := by
  induction h with
  | nil => exact .nil
  | keep c h ih => exact .keep c ih
  | drop hc h ih => exact .drop (hpq _ hc) ih

theorem Erases.append (h : Erases p s t) (h' : Erases p s' t') : Erases p (s ++ s') (t ++ t') := by
  induction h with
  | nil => exact h'
  | keep c h ih => exact .keep c ih
  | drop hc h ih => exact .drop hc ih

theorem erases_nil (h : ∀ c ∈ t, p c) : Erases p t [] := by
  induction t with
  | nil => exact .nil
  | cons c t ih => exact .drop (h c (by simp)) (ih fun d hd => h d (by simp [hd]))

/-- Where no character may go, the text stays. -/
theorem Erases.eq_of_forall_not (h : Erases p s t) (hp : ∀ c, ¬ p c) : t = s := by
  induction h with
  | nil => rfl
  | keep c h ih => rw [ih]
  | drop hc h ih => exact absurd hc (hp _)

/-- A text of white space and characters of a class has visible characters of that class only. -/
theorem erases_visible_nil (h : ∀ c ∈ t, isWhitespace c = true ∨ p c) :
    Erases p (visible t) [] := by
  refine erases_nil fun c hc => ?_
  obtain ⟨hmem, hvisible⟩ := List.mem_filter.mp hc
  exact (h c hmem).resolve_left (by simpa using hvisible)

end Tidymark.Text
