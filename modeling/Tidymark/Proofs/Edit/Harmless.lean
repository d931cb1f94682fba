import Tidymark.Proofs.Edit.Application
import Tidymark.Proofs.Text.Visible

/-! # Harmless edits

An edit is harmless if it takes out nothing but white space and characters of a class, and puts in
nothing but white space. Joined deletions are harmless again, and so a plan of harmless edits only
erases visible characters of the class. -/
namespace Tidymark

open Text (isWhitespace visible Erases)

/-- The edit fits the source, takes out only white space and characters of the class `p`, and puts
in only white space. -/
def Edit.Harmless (p : Char → Prop) (source : Text) (e : Edit) : Prop :=
  (∃ removed, source.slice? e.start e.stop = some removed ∧
    ∀ c ∈ removed, isWhitespace c = true ∨ p c) ∧
  ∀ c ∈ e.replacement, isWhitespace c = true

variable {p : Char → Prop} {source : Text}

namespace Edit

theorem harmless_of_split (before removed behind : Text) {e : Edit}
    (hsource : source = before ++ removed ++ behind) (hstart : e.start = before.size)
    (hstop : e.stop = before.size + removed.size)
    (hremoved : ∀ c ∈ removed, isWhitespace c = true ∨ p c)
    (hput : ∀ c ∈ e.replacement, isWhitespace c = true) : e.Harmless p source :=
  ⟨⟨removed, Text.slice?_eq_some_iff.mpr ⟨before, behind, hsource, hstart.symm, hstop.symm⟩,
    hremoved⟩, hput⟩

theorem harmless_replaceSpan (before removed behind : Text) {span : Span} {text : Text}
    (hsource : source = before ++ removed ++ behind) (hstart : span.start = before.size)
    (hstop : span.stop = before.size + removed.size)
    (hremoved : ∀ c ∈ removed, isWhitespace c = true ∨ p c)
    (htext : ∀ c ∈ text, isWhitespace c = true) : (replaceSpan span text).Harmless p source :=
  harmless_of_split before removed behind hsource hstart hstop hremoved htext

theorem harmless_deleteSpan (before removed behind : Text) {span : Span}
    (hsource : source = before ++ removed ++ behind) (hstart : span.start = before.size)
    (hstop : span.stop = before.size + removed.size)
    (hremoved : ∀ c ∈ removed, isWhitespace c = true ∨ p c) :
    (deleteSpan span).Harmless p source :=
  harmless_replaceSpan before removed behind hsource hstart hstop hremoved (by simp)

/-- White space may be inserted between any two characters. -/
theorem harmless_insert (before behind : Text) {offset : Nat} {text : Text}
    (hsource : source = before ++ behind) (hoffset : offset = before.size)
    (htext : ∀ c ∈ text, isWhitespace c = true) : (insert offset text).Harmless p source :=
  harmless_of_split before [] behind (by simpa using hsource) hoffset hoffset (by simp) htext

theorem Harmless.exists_split {e : Edit} (h : e.Harmless p source) :
    ∃ before removed behind, source = before ++ removed ++ behind ∧ e.start = before.size ∧
      e.stop = before.size + removed.size ∧ ∀ c ∈ removed, isWhitespace c = true ∨ p c := by
  obtain ⟨⟨removed, hslice, hremoved⟩, -⟩ := h
  obtain ⟨before, behind, hsource, hstart, hstop⟩ := Text.slice?_eq_some_iff.mp hslice
  exact ⟨before, removed, behind, hsource, hstart.symm, hstop.symm, hremoved⟩

theorem Harmless.start_le_stop {e : Edit} (h : e.Harmless p source) : e.start ≤ e.stop := by
  obtain ⟨before, removed, behind, -, hstart, hstop, -⟩ := h.exists_split
  omega

theorem Harmless.fits {e : Edit} (h : e.Harmless p source) : e.Fits source := by
  obtain ⟨before, removed, behind, rfl, hstart, hstop, -⟩ := h.exists_split
  refine ⟨by omega, ?_, Text.isBoundary_iff.mpr ⟨before, removed ++ behind, by simp, hstart.symm⟩,
    Text.isBoundary_iff.mpr ⟨before ++ removed, behind, rfl, ?_⟩⟩
  · simp only [Text.size_append]
    omega
  · rw [Text.size_append, hstop]

theorem Harmless.mono {q : Char → Prop} {e : Edit} (h : e.Harmless p source)
    (hpq : ∀ c, p c → q c) : e.Harmless q source := by
  obtain ⟨⟨removed, hslice, hremoved⟩, hput⟩ := h
  exact ⟨⟨removed, hslice, fun c hc => (hremoved c hc).imp_right (hpq c)⟩, hput⟩

/-- Of two overlapping harmless ranges, the bytes of the first one up to the second and then those
of the second are harmless. -/
theorem Harmless.join {e f : Edit} (he : e.Harmless p source) (hf : f.Harmless p source)
    (hstart : e.start ≤ f.start) (hclash : e.conflicts f = true) :
    (⟨e.start, max e.stop f.stop, e.replacement⟩ : Edit).Harmless p source := by
  rcases Nat.le_total f.stop e.stop with hle | hle
  · rw [Nat.max_eq_left hle]
    exact he
  · rw [Nat.max_eq_right hle]
    obtain ⟨a, r, b, hsource, hea, her, hr⟩ := he.exists_split
    obtain ⟨a', r', b', hsource', hfa, hfr, hr'⟩ := hf.exists_split
    have hfe : f.start < e.stop := (conflicts_iff.mp hclash).2
    have hsplit : a ++ (r ++ b) = a' ++ (r' ++ b') := by
      rw [← List.append_assoc, ← List.append_assoc, ← hsource, ← hsource']
    obtain ⟨x, rfl, hx⟩ := Text.exists_append_of_size_le hsplit (by omega)
    rw [Text.size_append] at hfa hfr
    obtain ⟨y, rfl, -⟩ := Text.exists_append_of_size_le hx.symm (by omega)
    refine harmless_of_split a (x ++ r') b' (by rw [hsource']; simp) hea
      (by simp only [Text.size_append]; omega) ?_ he.2
    intro c hc
    rcases List.mem_append.mp hc with hc | hc
    · exact hr c (by simp [hc])
    · exact hr' c hc

end Edit

namespace EditPlan

variable {edits : List Edit} {plan : EditPlan}

theorem Turns.erases {n : Nat} {rest out : Text} (h : Turns n rest edits out)
    (before : Text) (hn : before.size = n) (hedits : ∀ e ∈ edits, e.Harmless p (before ++ rest)) :
    Erases p (visible rest) (visible out) := by
  induction h generalizing before with
  | done n rest => exact .refl _
  | @edit n e edits gap removed rest out hstart hstop tail ih =>
    subst hn
    have he := hedits e (by simp)
    have hslice : (before ++ (gap ++ removed ++ rest)).slice? e.start e.stop = some removed :=
      Text.slice?_eq_some_iff.mpr ⟨before ++ gap, rest, by simp,
        by rw [hstart, Text.size_append], by rw [hstop, hstart, Text.size_append]⟩
    have hremoved : ∀ c ∈ removed, isWhitespace c = true ∨ p c := by
      obtain ⟨removed', hslice', hremoved⟩ := he.1
      rw [hslice] at hslice'
      exact Option.some.inj hslice' ▸ hremoved
    have htail : Erases p (visible rest) (visible out) := by
      refine ih (before ++ gap ++ removed) ?_ fun f hf => ?_
      · simp only [Text.size_append]
        omega
      · simpa using hedits f (by simp [hf])
    simp only [Text.visible_append, Text.visible_eq_nil he.2, List.append_nil]
    have hmid : Erases p (visible gap ++ visible removed) (visible gap) := by
      simpa using (Erases.refl (visible gap)).append (Text.erases_visible_nil hremoved)
    exact hmid.append htail

/-- A plan of harmless edits only erases visible characters of the class. -/
theorem erases_applyTo (h : prepare source edits = .ok plan)
    (hedits : ∀ e ∈ edits, e.Harmless p source) :
    Erases p (visible source) (visible (plan.applyTo source)) := by
  have hturns := (turns_applyTo h).2
  obtain ⟨-, rfl⟩ := prepare_eq_ok_iff.mp h
  refine hturns.erases [] rfl ?_
  exact forall_accepted_ofEdits (fun e he => (hedits e he).start_le_stop) hedits
    fun e f he hf _ _ hstart hclash => he.join hf hstart hclash

end EditPlan
end Tidymark
