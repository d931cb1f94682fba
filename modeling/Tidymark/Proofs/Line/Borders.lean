import Tidymark.Proofs.Line.Counting
import Tidymark.Proofs.Line.Neighbours

/-! # Where lines start and stop

The lines of a text are known by four offsets each: where the line, what is not white space in it,
its terminator and the next line start. The offsets are found by looking at bytes and characters
from the ends of a piece, and they fit together: the parts between them make up the text. -/
namespace Tidymark

/-- The bytes of a text from one offset to another. -/
def Text.bytes (t : Text) (start stop : Nat) : List UInt8 := ((encode t).take stop).drop start

namespace Line

/-- How the offsets of a line stand in the source that it is a line of. -/
structure Stands (source : Text) (l : Line) : Prop where
  start_lt_stop : l.start < l.stop
  slice_text : source.slice? l.start l.newlineStart = some l.text
  slice_terminator : source.slice? l.newlineStart l.stop = some l.terminator
  feed_not_mem : Text.feed ∉ (source.bytes l.start l.stop).dropLast
  ends : l.terminator = ['\n'] ∧ l.text.getLast? ≠ some '\r' ∨ l.terminator = ['\r', '\n'] ∨
    l.terminator = [] ∧ Text.feed ∉ source.bytes l.start l.stop
  contentStart_le : l.contentStart ≤ l.newlineStart
  isBoundary_contentStart : source.isBoundary l.contentStart = true

variable {n : Nat} {t a b source : Text} {lines : List Line} {l : Line}

theorem newlineStart_le_stop (l : Line) : l.newlineStart ≤ l.stop := Nat.le_add_right _ _

theorem hasNewline_eq (l : Line) : l.hasNewline = decide (l.newlineStart < l.stop) := by
  rw [Bool.eq_iff_iff, decide_eq_true_eq, stop, hasNewline]
  cases hnone : l.terminator with
  | nil => simp
  | cons c terminator =>
    have hpos := Text.size_pos_of_ne_nil (List.cons_ne_nil c terminator)
    simp only [List.isEmpty_cons, Bool.not_false, true_iff]
    omega

theorem Tiles.isChain (h : Tiles n t lines) : lines.IsChain fun k l => l.start = k.stop := by
  induction h with
  | nil => exact .nil
  | @cons l behind rest tail ih =>
    cases rest with
    | nil => exact .singleton l
    | cons k rest => exact .cons_cons tail.start_eq ih

theorem Tiles.stop_getLast (h : Tiles n t lines) :
    (lines.getLast?.map stop).getD n = n + t.size := by
  induction h with
  | nil => rfl
  | @cons l behind rest tail ih =>
    rw [Text.size_append, ← Nat.add_assoc, ← stop_eq, ← ih, List.getLast?_cons]
    cases rest.getLast? <;> rfl

theorem bytes_of_slice {i j : Nat} {q : Text} (h : t.slice? i j = some q) :
    t.bytes i j = Text.encode q := by
  obtain ⟨a, b, rfl, rfl, rfl⟩ := Text.slice?_eq_some_iff.mp h
  have htake : (Text.encode (a ++ q ++ b)).take (a.size + q.size) = Text.encode (a ++ q) := by
    rw [Text.encode_append, List.take_left' (by simp)]
  rw [Text.bytes, htake, Text.encode_append, List.drop_left' (Text.length_encode a)]

/-- Of the bytes of a line only the last may be a line feed. -/
theorem Ends.feed_not_mem (h : Ends l) : Text.feed ∉ (Text.encode l.whole).dropLast := by
  have htext := Text.feed_not_mem_encode h.not_mem_text
  have hlast : ∀ s : Text, '\n' ∉ s → Text.feed ∉ (Text.encode (s ++ ['\n'])).dropLast := by
    intro s hs
    rw [Text.encode_append, Text.encode_newline, List.dropLast_concat]
    exact Text.feed_not_mem_encode hs
  cases h with
  | @last _ t h =>
    rw [whole, List.append_nil]
    exact fun hfeed => htext (List.dropLast_subset _ hfeed)
  | @lf _ t h => exact hlast t h
  | @crlf start t h =>
    have hwhole : whole ⟨start, t, ['\r', '\n'], false⟩ = t ++ ['\r'] ++ ['\n'] := by simp [whole]
    rw [hwhole]
    exact hlast _ (by simp [h])

/-- A line of a text without a terminator is its last one. -/
theorem getLast?_of_terminator_eq_nil (hl : l ∈ ofText source) (hnone : l.terminator = []) :
    (ofText source).getLast? = some l := by
  have hends := ends_of_mem_ofText hl
  obtain ⟨before, p, after, hpieces, rfl⟩ := exists_split_of_mem_layOut hl
  have hp : p = (ofPiece (0 + Text.size before.flatten) p).text := by
    conv_lhs => rw [← whole_ofPiece (0 + Text.size before.flatten) p, whole, hnone, List.append_nil]
  obtain rfl := (hpieces ▸ closed_pieces source).at_border.2 (hp ▸ hends.not_mem_text)
  rw [ofText, hpieces, layOut_append, layOut, layOut, List.getLast?_concat]

theorem stands_of_mem_ofText (hl : l ∈ ofText source) : l.Stands source := by
  have hends := ends_of_mem_ofText hl
  have htiles := tiles_ofText source
  have hbytes : source.bytes l.start l.stop = Text.encode l.whole :=
    bytes_of_slice (htiles.slice_of_mem (p := []) (r := []) hl (by simp) rfl (stop_eq l))
  obtain ⟨rest, hrest⟩ := indentation_isPrefix l
  have hindent : source.slice? l.start l.contentStart = some l.indentation :=
    htiles.slice_of_mem (p := []) (r := rest ++ l.terminator) hl (by simp [whole, ← hrest]) rfl rfl
  refine ⟨start_lt_stop_of_mem_ofText hl, ?_, ?_, ?_, ?_, ?_, ?_⟩
  · exact htiles.slice_of_mem (p := []) hl rfl rfl rfl
  · exact htiles.slice_of_mem (p := l.text) (r := []) hl (by simp [whole]) rfl rfl
  · rw [hbytes]
    exact hends.feed_not_mem
  · rw [hbytes]
    cases hends with
    | last _ h => exact .inr (.inr ⟨rfl, by simpa [whole] using Text.feed_not_mem_encode h⟩)
    | lf _ _ hopen => exact .inl ⟨rfl, hopen⟩
    | crlf => exact .inr (.inl rfl)
  · rw [contentStart, newlineStart, indentBytes, ← hrest, Text.size_append]
    omega
  · exact (Text.isBoundary_of_slice hindent).2

/-- The lines of a text start at its start, each where the line before it stops, and the last stops
at the end of the text; their texts and terminators make it up. Each stands in the text as its
offsets say, and only the last may do without a terminator. -/
theorem ofText_stands (source : Text) :
    let lines := ofText source
    (∀ l ∈ lines.head?, l.start = 0) ∧ (lines.IsChain fun k l => l.start = k.stop) ∧
    (lines.getLast?.map stop).getD 0 = source.size ∧ (∀ l ∈ lines, l.Stands source) ∧
    (∀ l ∈ lines, l.terminator = [] → lines.getLast? = some l) ∧
    lines.flatMap (fun l => l.text ++ l.terminator) = source := by
  intro lines
  have htiles : Tiles 0 source lines := tiles_ofText source
  refine ⟨fun l hl => ?_, htiles.isChain, by simpa using htiles.stop_getLast,
    fun l => stands_of_mem_ofText, fun l => getLast?_of_terminator_eq_nil, htiles.eq_flatMap.symm⟩
  obtain ⟨rest, hrest⟩ := List.head?_eq_some_iff.mp hl
  exact (hrest ▸ htiles).start_eq

end Line
end Tidymark
