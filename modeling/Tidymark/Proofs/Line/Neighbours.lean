import Tidymark.Proofs.Line.Block
import Tidymark.Proofs.Rule.Harmless

/-! # Lines next to each other

No line of a text is empty, and each starts where the one above it stops. So the borders of lines are
different places, one for each line, and the line that an offset lies on is found by its borders. -/
namespace Tidymark

namespace Line

variable {n offset i : Nat} {t p : Text} {lines : List Line} {k l : Line}

theorem ne_nil_of_mem_pieces (h : p ∈ pieces t) : p ≠ [] := by
  induction t generalizing p with
  | nil => cases h
  | cons c t ih =>
    simp only [pieces] at h
    split at h
    · rcases List.mem_cons.mp h with rfl | h
      · exact List.cons_ne_nil c []
      · exact ih h
    · split at h
      · obtain rfl := List.mem_singleton.mp h
        exact List.cons_ne_nil c []
      · rename_i hpieces
        rcases List.mem_cons.mp h with rfl | h
        · exact List.cons_ne_nil _ _
        · exact ih (hpieces ▸ List.mem_cons_of_mem _ h)

theorem start_lt_stop_of_mem_ofText (h : l ∈ ofText t) : l.start < l.stop := by
  obtain ⟨start, piece, hpiece, rfl⟩ := mem_layOut h
  have hpos := Text.size_pos_of_ne_nil (ne_nil_of_mem_pieces hpiece)
  rw [stop_eq, whole_ofPiece]
  omega

theorem Tiles.start_eq_stop (h : Tiles n t lines) (hk : lines[i]? = some k)
    (hl : lines[i + 1]? = some l) : l.start = k.stop := by
  induction h generalizing i with
  | nil => simp at hk
  | @cons first behind rest tail ih =>
    cases i with
    | succ i => exact ih hk hl
    | zero =>
      obtain rfl : first = k := by simpa using hk
      cases rest with
      | nil => simp at hl
      | cons second rest =>
        obtain rfl : second = l := by simpa using hl
        exact tail.start_eq

/-- The index of an offset is that of the line between whose borders it lies. -/
theorem Tiles.indexAt_eq (h : Tiles n t lines) (hl : lines[i]? = some l) (hstart : l.start ≤ offset)
    (hstop : offset < l.stop) : indexAt lines offset = i := by
  obtain ⟨hi, rfl⟩ := List.getElem?_eq_some_iff.mp hl
  have hsplit : lines = lines.take i ++ lines[i] :: lines.drop (i + 1) := by simp
  have hlength : (lines.take i).length = i := List.length_take_of_le (Nat.le_of_lt hi)
  rw [hsplit] at h
  have hindex := indexAt_split h hstart hstop
  rwa [← hsplit, hlength] at hindex

end Line

namespace RuleContext

variable {ctx : RuleContext} {source : Text} {line : Line}

theorem Views.start_lt_stop (h : ctx.Views source) (hline : line ∈ ctx.snapshot.lines) :
    line.start < line.stop := by
  obtain ⟨path, root, h⟩ := h
  obtain ⟨l, hl, rfl⟩ := List.mem_map.mp (h ▸ hline)
  have hlt : l.start < l.stop := Line.start_lt_stop_of_mem_ofText hl
  exact hlt

end RuleContext
end Tidymark
