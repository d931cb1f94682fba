import Mathlib.Data.List.Basic
import Mathlib.Data.List.TakeWhile
import Tidymark.Proofs.Text.Cut
import Tidymark.Snapshot

/-! # Lines tile their text

The lines of a text follow one another without a gap, from its start to its end. So a line is a part
of the text at the offset that it names, and the lines around it make up what is around it. -/
namespace Tidymark

namespace Line

/-- The line with its terminator. -/
def whole (l : Line) : Text := l.text ++ l.terminator

theorem stop_eq (l : Line) : l.stop = l.start + l.whole.size := by
  rw [stop, newlineStart, whole, Text.size_append, Nat.add_assoc]

/-- A piece ends in the terminator that is found at its end. -/
theorem exists_eq_append_terminatorOf (piece : Text) : ∃ t, piece = t ++ terminatorOf piece := by
  unfold terminatorOf
  split
  · rename_i rest h
    exact ⟨rest.reverse, by simpa using congrArg List.reverse h⟩
  · rename_i rest _ h
    exact ⟨rest.reverse, by simpa using congrArg List.reverse h⟩
  · exact ⟨piece, by simp⟩

theorem whole_ofPiece (start : Nat) (piece : Text) : (ofPiece start piece).whole = piece := by
  obtain ⟨t, ht⟩ := exists_eq_append_terminatorOf piece
  have hlen : piece.length - (terminatorOf piece).length = t.length := by
    have := congrArg List.length ht
    rw [List.length_append] at this
    omega
  have htake : piece.take t.length = t := by
    conv_lhs => rw [ht]
    simp
  simp only [whole, ofPiece, hlen, htake]
  exact ht.symm

theorem isWhitespace_of_mem_terminatorOf {piece : Text} {c : Char} (h : c ∈ terminatorOf piece) :
    Text.isWhitespace c = true := by
  unfold terminatorOf at h
  split at h
  · simp only [List.mem_cons, List.not_mem_nil, or_false] at h
    rcases h with rfl | rfl <;> decide
  · obtain rfl := List.mem_singleton.mp h
    decide
  · cases h

theorem indentation_isPrefix (l : Line) : l.indentation <+: l.text := by
  unfold indentation
  split
  · exact List.nil_prefix
  · exact List.takeWhile_prefix _

theorem isWhitespace_of_mem_indentation {l : Line} {c : Char} (h : c ∈ l.indentation) :
    Text.isWhitespace c = true := by
  unfold indentation at h
  split at h
  · cases h
  · exact List.mem_takeWhile_imp h

/-- `Tiles n t lines`: the lines make up the text `t`, which starts at the offset `n`, each where
it says. -/
inductive Tiles : Nat → Text → List Line → Prop
  | nil (n : Nat) : Tiles n [] []
  | cons {l : Line} {behind : Text} {rest : List Line} (tail : Tiles l.stop behind rest) :
      Tiles l.start (l.whole ++ behind) (l :: rest)

theorem tiles_layOut (n : Nat) (pieces : List Text) :
    Tiles n pieces.flatten (layOut n pieces) := by
  induction pieces generalizing n with
  | nil => exact .nil n
  | cons piece pieces ih =>
    have hstop : (ofPiece n piece).stop = n + piece.size := by
      rw [stop_eq, whole_ofPiece]
      rfl
    have htail : Tiles (ofPiece n piece).stop pieces.flatten (layOut (n + piece.size) pieces) := by
      rw [hstop]
      exact ih _
    have h := Tiles.cons htail
    rwa [whole_ofPiece] at h

theorem tiles_ofText (source : Text) : Tiles 0 source (ofText source) := by
  have h := tiles_layOut 0 (pieces source)
  rwa [flatten_pieces] at h

theorem mem_layOut {n : Nat} {pieces : List Text} {l : Line} (h : l ∈ layOut n pieces) :
    ∃ start, ∃ piece ∈ pieces, l = ofPiece start piece := by
  induction pieces generalizing n with
  | nil => cases h
  | cons piece pieces ih =>
    rcases List.mem_cons.mp h with rfl | h
    · exact ⟨n, piece, by simp, rfl⟩
    · obtain ⟨start, piece', hmem, rfl⟩ := ih h
      exact ⟨start, piece', by simp [hmem], rfl⟩

theorem verbatim_of_mem_ofText {source : Text} {l : Line} (h : l ∈ ofText source) :
    l.verbatim = false := by
  obtain ⟨start, piece, -, rfl⟩ := mem_layOut h
  rfl

theorem Tiles.mark {n : Nat} {t : Text} {lines : List Line} (h : Tiles n t lines)
    (verbatim : Line → Bool) :
    Tiles n t (lines.map fun l => { l with verbatim := verbatim l }) := by
  induction h with
  | nil n => exact .nil n
  | @cons l behind rest tail ih =>
    exact @Tiles.cons { l with verbatim := verbatim l } behind _ ih

theorem Tiles.exists_append {n : Nat} {t : Text} {before after : List Line}
    (h : Tiles n t (before ++ after)) :
    ∃ a b, t = a ++ b ∧ Tiles n a before ∧ Tiles (n + a.size) b after := by
  induction before generalizing n t with
  | nil => exact ⟨[], t, rfl, .nil n, h⟩
  | cons l before ih =>
    cases h with
    | cons tail =>
      obtain ⟨a, b, rfl, hbefore, hafter⟩ := ih tail
      refine ⟨l.whole ++ a, b, by simp, .cons hbefore, ?_⟩
      rwa [Text.size_append, ← Nat.add_assoc, ← stop_eq]

/-- Around a line are the texts of the lines before it and behind it. -/
theorem Tiles.split {n : Nat} {t : Text} {before after : List Line} {l : Line}
    (h : Tiles n t (before ++ l :: after)) :
    ∃ a b, t = a ++ l.whole ++ b ∧ l.start = n + a.size ∧ Tiles n a before ∧
      Tiles l.stop b after := by
  obtain ⟨a, rest, rfl, hbefore, hrest⟩ := h.exists_append
  generalize hn : n + a.size = k at hrest
  cases hrest with
  | @cons _ behind _ tail => exact ⟨a, behind, by simp, hn.symm, hbefore, tail⟩

/-- A line is a part of the text, and so are its own parts. -/
theorem Tiles.slice_of_mem {t p q r : Text} {lines : List Line} {l : Line} {i j : Nat}
    (h : Tiles 0 t lines) (hl : l ∈ lines) (hwhole : l.whole = p ++ q ++ r)
    (hi : i = l.start + p.size) (hj : j = i + q.size) : t.slice? i j = some q := by
  obtain ⟨before, after, rfl⟩ := List.append_of_mem hl
  obtain ⟨a, b, ht, hstart, -, -⟩ := h.split
  rw [Nat.zero_add] at hstart
  have hslice : t.slice? l.start l.stop = some (p ++ q ++ r) :=
    Text.slice?_eq_some_iff.mpr ⟨a, b, by rw [ht, hwhole], hstart.symm,
      by rw [stop_eq, hstart, hwhole]⟩
  exact Text.slice_of_slice hslice hi hj

theorem Tiles.exists_mem {n : Nat} {t : Text} {lines : List Line} (h : Tiles n t lines) {c : Char}
    (hc : c ∈ t) : ∃ l ∈ lines, c ∈ l.whole := by
  induction h with
  | nil => cases hc
  | @cons l behind rest tail ih =>
    rcases List.mem_append.mp hc with hc | hc
    · exact ⟨l, by simp, hc⟩
    · obtain ⟨k, hk, hck⟩ := ih hc
      exact ⟨k, by simp [hk], hck⟩

end Line

namespace Snapshot

variable {path : String} {source : Text} {root : Node} {l : Line}

theorem tiles_ofTree (path : String) (source : Text) (root : Node) :
    Line.Tiles 0 source (ofTree path source root).lines :=
  (Line.tiles_ofText source).mark _

/-- A line of a snapshot is a part of its source. -/
theorem exists_around_line (h : l ∈ (ofTree path source root).lines) :
    ∃ a b, source = a ++ l.whole ++ b ∧ l.start = a.size := by
  obtain ⟨before, after, hlines⟩ := List.append_of_mem h
  obtain ⟨a, b, hsource, hstart, -, -⟩ := (hlines ▸ tiles_ofTree path source root).split
  exact ⟨a, b, hsource, by simpa using hstart⟩

theorem isWhitespace_of_mem_terminator (h : l ∈ (ofTree path source root).lines) {c : Char}
    (hc : c ∈ l.terminator) : Text.isWhitespace c = true := by
  obtain ⟨k, hk, rfl⟩ := List.mem_map.mp h
  obtain ⟨start, piece, -, rfl⟩ := Line.mem_layOut hk
  exact Line.isWhitespace_of_mem_terminatorOf hc

/-- All characters of a blank line are white space, its terminator included. -/
theorem isWhitespace_of_mem_blank (h : l ∈ (ofTree path source root).lines)
    (blank : l.isBlank = true) {c : Char} (hc : c ∈ l.whole) : Text.isWhitespace c = true := by
  rcases List.mem_append.mp hc with hc | hc
  · exact List.all_eq_true.mp blank c hc
  · exact isWhitespace_of_mem_terminator h hc

end Snapshot
end Tidymark
