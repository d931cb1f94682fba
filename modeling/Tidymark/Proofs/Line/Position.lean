import Mathlib.Data.List.TakeWhile
import Tidymark.Proofs.Line.Tiling
import Tidymark.Proofs.Sorting

/-! # Where lines are

Lines that tile a text follow one another, and each offset in the text lies on one of them: on the
one that the index of the offset names. -/
namespace Tidymark.Line

variable {n offset i j : Nat} {t : Text} {lines before after : List Line} {k l : Line}

theorem start_le_stop (l : Line) : l.start ≤ l.stop := by
  rw [stop_eq]
  omega

theorem Tiles.bounds (h : Tiles n t lines) (hl : l ∈ lines) : n ≤ l.start ∧ l.stop ≤ n + t.size := by
  obtain ⟨before, after, rfl⟩ := List.append_of_mem hl
  obtain ⟨a, b, rfl, hstart, -, -⟩ := h.split
  simp only [stop_eq, Text.size_append]
  omega

theorem Tiles.apart (h : Tiles n t lines) : lines.Pairwise fun k l => k.stop ≤ l.start := by
  induction h with
  | nil => exact .nil
  | cons tail ih => exact .cons (fun k hk => (tail.bounds hk).1) ih

theorem Tiles.stop_le_start_of_lt (h : Tiles n t lines) (hk : lines[i]? = some k)
    (hl : lines[j]? = some l) (hij : i < j) : k.stop ≤ l.start := by
  obtain ⟨hi, rfl⟩ := List.getElem?_eq_some_iff.mp hk
  obtain ⟨hj, rfl⟩ := List.getElem?_eq_some_iff.mp hl
  exact List.pairwise_iff_getElem.mp h.apart i j hi hj hij

theorem Tiles.exists_line (h : Tiles n t lines) (hstart : n ≤ offset)
    (hstop : offset < n + t.size) :
    ∃ before l after, lines = before ++ l :: after ∧ l.start ≤ offset ∧ offset < l.stop := by
  induction h with
  | nil =>
    rw [Text.size_nil] at hstop
    omega
  | @cons l behind rest tail ih =>
    by_cases hl : offset < l.stop
    · exact ⟨[], l, rest, rfl, hstart, hl⟩
    · rw [Text.size_append, ← Nat.add_assoc, ← stop_eq] at hstop
      obtain ⟨before, k, after, rfl, hk⟩ := ih (by omega) hstop
      exact ⟨l :: before, k, after, rfl, hk⟩

/-- The index of an offset counts the lines before the one that it lies on. -/
theorem indexAt_split (h : Tiles n t (before ++ l :: after)) (hstart : l.start ≤ offset)
    (hstop : offset < l.stop) : indexAt (before ++ l :: after) offset = before.length := by
  obtain ⟨-, hafter, hbefore⟩ := List.pairwise_append.mp h.apart
  have hscan : (before ++ l :: after).takeWhile (fun l => l.start ≤ offset) = before ++ [l] := by
    rw [List.takeWhile_append_of_pos, List.takeWhile_cons_of_pos (by simpa using hstart)]
    · cases after with
      | nil => rfl
      | cons k after =>
        have hk := List.rel_of_pairwise_cons hafter List.mem_cons_self
        rw [List.takeWhile_cons_of_neg (by simp only [decide_eq_true_eq]; omega)]
    · intro k hk
      have h1 := hbefore k hk l List.mem_cons_self
      have h2 := k.start_le_stop
      simp only [decide_eq_true_eq]
      omega
  simp only [indexAt, hscan, List.length_append, List.length_singleton, Nat.add_sub_cancel,
    List.getElem?_append_right (Nat.le_refl _), Nat.sub_self, List.getElem?_cons_zero]
  rw [if_neg (by simp only [Bool.and_eq_true, decide_eq_true_eq]; omega)]

theorem Tiles.exists_indexAt (h : Tiles n t lines) (hstart : n ≤ offset)
    (hstop : offset < n + t.size) :
    ∃ l, lines[indexAt lines offset]? = some l ∧ l.start ≤ offset ∧ offset < l.stop := by
  obtain ⟨before, l, after, rfl, hl⟩ := h.exists_line hstart hstop
  exact ⟨l, by rw [indexAt_split h hl.1 hl.2]; simp, hl⟩

/-- No line that the index of an offset names starts behind the offset. -/
theorem Tiles.start_le_of_indexAt (h : Tiles n t lines) (hstart : n ≤ offset)
    (hl : lines[indexAt lines offset]? = some l) : l.start ≤ offset := by
  by_cases hstop : offset < n + t.size
  · obtain ⟨k, hk, hle, -⟩ := h.exists_indexAt hstart hstop
    obtain rfl := Option.some.inj (hl.symm.trans hk)
    exact hle
  · have h1 := (h.bounds (List.mem_of_getElem? hl)).2
    have h2 := l.start_le_stop
    omega

theorem Tiles.indexAt_le_indexAt (h : Tiles n t lines) {a b : Nat} (hstart : n ≤ a) (hab : a ≤ b)
    (hstop : b < n + t.size) : indexAt lines a ≤ indexAt lines b := by
  obtain ⟨k, hk, hka, hak⟩ := h.exists_indexAt hstart (hab.trans_lt hstop)
  obtain ⟨l, hl, hlb, hbl⟩ := h.exists_indexAt (hstart.trans hab) hstop
  by_contra hlt
  have hapart := h.stop_le_start_of_lt hl hk (by omega)
  omega

/-- A line from that of one offset up to that of another shares a byte with what is between them. -/
theorem Tiles.overlaps_of_index (h : Tiles n t lines) {span : Span} (hstart : n ≤ span.start)
    (hspan : span.start < span.stop) (hstop : span.stop ≤ n + t.size)
    (hfirst : indexAt lines span.start ≤ i) (hlast : i ≤ indexAt lines (span.stop - 1))
    (hl : lines[i]? = some l) : span.overlaps l.span = true := by
  obtain ⟨first, hf, -, hfirst'⟩ := h.exists_indexAt hstart (hspan.trans_le hstop)
  obtain ⟨last, hk, hlast', -⟩ :=
    h.exists_indexAt (show n ≤ span.stop - 1 by omega) (show span.stop - 1 < _ by omega)
  have hbehind : span.start < l.stop := by
    rcases Nat.eq_or_lt_of_le hfirst with rfl | hlt
    · obtain rfl := Option.some.inj (hf.symm.trans hl)
      exact hfirst'
    · have h1 := h.stop_le_start_of_lt hf hl hlt
      have h2 := l.start_le_stop
      omega
  have hbefore : l.start ≤ span.stop - 1 := by
    rcases Nat.eq_or_lt_of_le hlast with rfl | hlt
    · obtain rfl := Option.some.inj (hk.symm.trans hl)
      exact hlast'
    · have h1 := h.stop_le_start_of_lt hl hk hlt
      have h2 := l.start_le_stop
      omega
  rw [Span.overlaps_eq_true]
  simp only [Line.span]
  omega

end Tidymark.Line
