import Tidymark.Proofs.Text.Cut
import Tidymark.Span

/-! # Passages

A passage is a part of a text together with its offset. Passages that stand in a text one behind the
other are cut apart by any range that meets none of them. -/
namespace Tidymark

structure Passage where
  start : Nat
  text : Text
  deriving DecidableEq, Repr

namespace Text

/-- `Holds parts t`: the parts occur in `t`, each in one piece, one behind the other. -/
inductive Holds : List Text → Text → Prop
  | nil (t : Text) : Holds [] t
  | cons (gap part : Text) {parts : List Text} {rest : Text} (tail : Holds parts rest) :
      Holds (part :: parts) (gap ++ part ++ rest)

variable {parts parts' : List Text} {t t' : Text}

theorem Holds.prepend (h : Holds parts t) (before : Text) : Holds parts (before ++ t) := by
  cases h with
  | nil => exact .nil _
  | cons gap part tail => simpa using Holds.cons (before ++ gap) part tail

theorem Holds.append (h : Holds parts t) (h' : Holds parts' t') :
    Holds (parts ++ parts') (t ++ t') := by
  induction h with
  | nil t => exact h'.prepend t
  | cons gap part tail ih => simpa using Holds.cons gap part ih

theorem Holds.sublist (h : Holds parts t) (hparts : parts'.Sublist parts) : Holds parts' t := by
  induction h generalizing parts' with
  | nil t =>
    obtain rfl := List.sublist_nil.mp hparts
    exact .nil t
  | cons gap part tail ih =>
    cases hparts with
    | cons _ hparts => exact (ih hparts).prepend _
    | cons_cons _ hparts => exact .cons gap part (ih hparts)

theorem Holds.isInfix {part : Text} (h : Holds [part] t) : part <:+: t := by
  cases h with
  | cons gap _ tail => exact ⟨gap, _, rfl⟩

end Text

namespace Passage

def stop (p : Passage) : Nat := p.start + p.text.size

def span (p : Passage) : Span := ⟨p.start, p.stop⟩

/-- `Stand n ps t`: the passages stand in the text `t`, which starts at the offset `n`, one behind the
other, each where it says. -/
inductive Stand : Nat → List Passage → Text → Prop
  | nil (n : Nat) (t : Text) : Stand n [] t
  | cons {n : Nat} {p : Passage} {ps : List Passage} {gap rest : Text}
      (hstart : p.start = n + gap.size) (tail : Stand p.stop ps rest) :
      Stand n (p :: ps) (gap ++ p.text ++ rest)

variable {n : Nat} {ps : List Passage} {t before removed behind : Text}

theorem Stand.prepend (h : Stand (n + before.size) ps t) : Stand n ps (before ++ t) := by
  cases h with
  | nil => exact .nil _ _
  | @cons _ p ps gap rest hstart tail =>
    have hstart' : p.start = n + (before ++ gap).size := by
      rw [hstart, Text.size_append, Nat.add_assoc]
    simpa using Stand.cons hstart' tail

theorem Stand.holds (h : Stand n ps t) : Text.Holds (ps.map text) t := by
  induction h with
  | nil n t => exact .nil t
  | cons hstart tail ih => exact .cons _ _ ih

/-- Some of the passages stand before a range that meets none of them, and the others behind it. -/
theorem Stand.split (h : Stand n ps (before ++ removed ++ behind))
    (hfree : ∀ p ∈ ps, p.stop ≤ n + before.size ∨ n + before.size + removed.size ≤ p.start) :
    ∃ qs rs, ps = qs ++ rs ∧ Stand n qs before ∧
      Stand (n + before.size + removed.size) rs behind := by
  generalize ht : before ++ removed ++ behind = t at h
  induction h generalizing before with
  | nil n t => exact ⟨[], [], rfl, .nil _ _, .nil _ _⟩
  | @cons n p ps gap rest hstart tail ih =>
    have hstop : p.stop = n + gap.size + p.text.size := by rw [stop, hstart]
    rcases hfree p (by simp) with hle | hle
    · have hcut : gap ++ p.text ++ rest = before ++ (removed ++ behind) := by
        rw [← ht, List.append_assoc before]
      obtain ⟨x, rfl, rfl⟩ := Text.exists_append_of_size_le hcut (by
        rw [Text.size_append]
        omega)
      have hsize : n + Text.size (gap ++ p.text ++ x) = p.stop + x.size := by
        simp only [Text.size_append]
        omega
      rw [hsize] at hfree ⊢
      obtain ⟨qs, rs, rfl, hqs, hrs⟩ := ih (fun q hq => hfree q (by simp [hq])) (by simp)
      exact ⟨p :: qs, rs, rfl, .cons hstart hqs, hrs⟩
    · have hcut : before ++ removed ++ behind = gap ++ (p.text ++ rest) := by
        rw [ht, List.append_assoc gap]
      obtain ⟨x, rfl, rfl⟩ := Text.exists_append_of_size_le hcut (by
        rw [Text.size_append]
        omega)
      simp only [Text.size_append] at hstart
      refine ⟨[], p :: ps, rfl, .nil _ _, ?_⟩
      rw [← List.append_assoc]
      exact .cons (by omega) tail

end Passage
end Tidymark
