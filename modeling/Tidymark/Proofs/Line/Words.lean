import Mathlib.Data.List.Forall2
import Tidymark.Proofs.Line.Borders
import Tidymark.Proofs.Markdown.Conversion

/-! # Lines in words of 32 bits

The size limit lets all offsets of a document fit into words of 32 bits. Lines and positions hold
other numbers as well, and some of these go further: positions are counted from one, and a tab of
one byte is up to four columns wide. In words, where a sum that is too large goes round at
`2 ^ 32`, each number of a line is what it is otherwise, cut to 32 bits. So the offsets are exact,
and the other numbers are as far as they fit. -/
namespace Tidymark

/-- The column after a character, however far it is. -/
def Text.nextColumn (column : Nat) (c : Char) : Nat :=
  if c == '\t' then (column + 4) / 4 * 4 else column + 1

/-- The width in columns of a text at the start of a line. -/
def Text.columns (t : Text) : Nat := t.foldl nextColumn 0

/-- The numbers of a line in words of 32 bits. -/
structure LineWords where
  start : UInt32
  newlineStart : UInt32
  stop : UInt32
  indent : UInt32
  indentBytes : UInt32
  deriving DecidableEq, Repr

namespace LineWords

/-- The line that starts at an offset and holds `piece`, terminator included. -/
def ofPiece (start : UInt32) (piece : Text) : LineWords :=
  let line := Line.ofPiece 0 piece
  { start
    newlineStart := start + .ofNat line.text.size
    stop := start + .ofNat piece.size
    indent := line.indentation.foldl Line.advance 0
    indentBytes := .ofNat line.indentation.size }

/-- Lines with these contents, the first at `start` and each of the others where the one before it
stops. -/
def layOut (start : UInt32) : List Text → List LineWords
  | [] => []
  | piece :: rest =>
    let line := ofPiece start piece
    line :: layOut line.stop rest

/-- The lines of a text. -/
def ofText (source : Text) : List LineWords := layOut 0 (Line.pieces source)

/-- Which of `lines`, counted from zero, an offset lies on. -/
def indexAt (lines : List LineWords) (offset : UInt32) : Nat :=
  let i := (lines.takeWhile fun l => l.start ≤ offset).length - 1
  match lines[i]? with
  | some line => if line.stop ≤ offset && line.newlineStart < line.stop then i + 1 else i
  | none => i

/-- Line and column of an offset, counted from one. -/
def positionAt (lines : List LineWords) (offset : UInt32) : UInt32 × UInt32 :=
  let i := indexAt lines offset
  let start :=
    match lines[i]? with
    | some line => line.start
    | none => (lines.getLast?.map stop).getD 0
  (.ofNat i + 1, offset - start + 1)

end LineWords

/-- The numbers of a line, cut to 32 bits. -/
def Line.words (l : Line) : LineWords :=
  ⟨.ofNat l.start, .ofNat l.newlineStart, .ofNat l.stop, l.indentation.foldl advance 0,
    .ofNat l.indentBytes⟩

namespace LineWords

variable {a b k n offset : Nat} {source : Text} {root : Node} {lines : List Line}

/-! ## Words as numbers cut to 32 bits -/

theorem toNat_ofNat_eq_iff : (UInt32.ofNat n).toNat = n ↔ n ≤ sizeLimit := by
  have hlimit : sizeLimit = 2 ^ 32 - 1 := rfl
  rw [UInt32.toNat_ofNat', hlimit]
  omega

theorem ofNat_le_ofNat (ha : a ≤ sizeLimit) (hb : b ≤ sizeLimit) :
    UInt32.ofNat a ≤ .ofNat b ↔ a ≤ b := by
  rw [UInt32.le_iff_toNat_le, toNat_ofNat_eq_iff.mpr ha, toNat_ofNat_eq_iff.mpr hb]

theorem ofNat_lt_ofNat (ha : a ≤ sizeLimit) (hb : b ≤ sizeLimit) :
    UInt32.ofNat a < .ofNat b ↔ a < b := by
  rw [UInt32.lt_iff_toNat_lt, toNat_ofNat_eq_iff.mpr ha, toNat_ofNat_eq_iff.mpr hb]

/-- Going round does not disturb tab stops, as four divides `2 ^ 32`. -/
theorem advance_ofNat (n : Nat) (c : Char) :
    Line.advance (.ofNat n) c = .ofNat (Text.nextColumn n c) := by
  apply UInt32.toNat_inj.mp
  simp only [Line.advance, Text.nextColumn]
  split
  · simp
    omega
  · simp

theorem foldl_advance (cs : Text) (n : Nat) :
    cs.foldl Line.advance (.ofNat n) = .ofNat (cs.foldl Text.nextColumn n) := by
  induction cs generalizing n with
  | nil => rfl
  | cons c cs ih => rw [List.foldl_cons, List.foldl_cons, advance_ofNat, ih]

/-- The columns of a text are exact as far as they fit. -/
theorem toNat_foldl_advance_eq_iff (cs : Text) :
    (cs.foldl Line.advance 0).toNat = cs.columns ↔ cs.columns ≤ sizeLimit := by
  have hcolumns : cs.foldl Line.advance 0 = .ofNat cs.columns := foldl_advance cs 0
  rw [hcolumns, toNat_ofNat_eq_iff]

theorem ofPiece_ofNat (start : Nat) (piece : Text) :
    ofPiece (.ofNat start) piece = (Line.ofPiece start piece).words := by
  have hstop : (Line.ofPiece start piece).stop = start + piece.size := by
    rw [Line.stop_eq, Line.whole_ofPiece]
    rfl
  rw [ofPiece, Line.words, hstop, Line.newlineStart, UInt32.ofNat_add, UInt32.ofNat_add]
  rfl

theorem layOut_ofNat (start : Nat) (pieces : List Text) :
    layOut (.ofNat start) pieces = (Line.layOut start pieces).map Line.words := by
  induction pieces generalizing start with
  | nil => rfl
  | cons piece rest ih =>
    have hstop : (ofPiece (.ofNat start) piece).stop = .ofNat (start + piece.size) := by
      rw [UInt32.ofNat_add]
      rfl
    rw [layOut, Line.layOut, List.map_cons, hstop, ih, ofPiece_ofNat]

theorem ofText_eq (source : Text) : ofText source = (Line.ofText source).map Line.words :=
  layOut_ofNat 0 _

theorem takeWhile_congr {α : Type} {p q : α → Bool} {items : List α}
    (h : ∀ a ∈ items, p a = q a) : items.takeWhile p = items.takeWhile q := by
  induction items with
  | nil => rfl
  | cons a items ih =>
    rw [List.takeWhile_cons, List.takeWhile_cons, h a List.mem_cons_self,
      ih fun b hb => h b (List.mem_cons_of_mem a hb)]

/-- The index of an offset is found among words as among numbers that fit into them. -/
theorem indexAt_map (hlines : ∀ l ∈ lines, l.stop ≤ sizeLimit) (hoffset : offset ≤ sizeLimit) :
    indexAt (lines.map Line.words) (.ofNat offset) = Line.indexAt lines offset := by
  have hscan : (lines.map Line.words).takeWhile (fun w => w.start ≤ .ofNat offset) =
      (lines.takeWhile fun l => l.start ≤ offset).map Line.words := by
    rw [List.takeWhile_map]
    refine congrArg _ (takeWhile_congr fun l hl => ?_)
    have hstart := l.start_le_stop.trans (hlines l hl)
    exact decide_eq_decide.mpr (ofNat_le_ofNat hstart hoffset)
  simp only [indexAt, Line.indexAt, hscan, List.length_map, List.getElem?_map]
  cases hline : lines[(lines.takeWhile fun l => l.start ≤ offset).length - 1]? with
  | none => rfl
  | some l =>
    have hstop := hlines l (List.mem_of_getElem? hline)
    have hnewline := l.newlineStart_le_stop.trans hstop
    simp only [Option.map_some, Line.words, ofNat_le_ofNat hstop hoffset,
      ofNat_lt_ofNat hnewline hstop, Line.hasNewline_eq]

/-- A position among words is the position among numbers that fit into them, cut to 32 bits. -/
theorem positionAt_map (hlines : ∀ l ∈ lines, l.stop ≤ sizeLimit) (hoffset : offset ≤ sizeLimit)
    (hstart : Line.startAt 0 lines offset ≤ offset) :
    positionAt (lines.map Line.words) (.ofNat offset) =
      (.ofNat (Line.positionAt lines offset).line,
        .ofNat (Line.positionAt lines offset).column) := by
  have hposition : Line.positionAt lines offset =
      ⟨Line.indexAt lines offset + 1, offset - Line.startAt 0 lines offset + 1⟩ := rfl
  rw [hposition, positionAt, indexAt_map hlines hoffset, UInt32.ofNat_add, UInt32.ofNat_add,
    UInt32.ofNat_sub hstart, Line.startAt, List.getElem?_map, List.getLast?_map, Option.map_map]
  cases lines[Line.indexAt lines offset]? with
  | some l => rfl
  | none => cases lines.getLast? <;> rfl

/-! ## What fits below the size limit -/

theorem nextColumn_le (n : Nat) (c : Char) : Text.nextColumn n c ≤ n + 4 * c.utf8Size := by
  have hpos := c.utf8Size_pos
  rw [Text.nextColumn]
  split <;> omega

theorem foldl_nextColumn_le (cs : Text) (n : Nat) :
    cs.foldl Text.nextColumn n ≤ n + 4 * cs.size := by
  induction cs generalizing n with
  | nil => simp
  | cons c cs ih =>
    have hc := nextColumn_le n c
    have hcs := ih (Text.nextColumn n c)
    rw [List.foldl_cons, Text.size_cons]
    omega

/-- Below the size limit the offsets of lines and the size of their indentation are exact in words.
The columns of an indentation are exact as far as they fit, and their number is at most four times
that of the bytes. The index of an offset is exact. Its position is exact but for the end of a text
of the largest size, where the line is wrong if the text is nothing but line feeds, and the column
is wrong if it has none. -/
theorem exact_of_read (hread : Markdown.read source = .ok root) :
    let lines := Line.ofText source
    let words := ofText source
    List.Forall₂ (fun w l =>
      (w.start.toNat = l.start ∧ w.newlineStart.toNat = l.newlineStart ∧ w.stop.toNat = l.stop ∧
        w.indentBytes.toNat = l.indentBytes) ∧
      (w.indent.toNat = l.indent ∧ ∀ cs : Text, cs <+: l.indentation →
        ((cs.foldl Line.advance 0).toNat = cs.columns ↔ cs.columns ≤ sizeLimit)) ∧
      l.indentation.columns ≤ 4 * l.indentBytes) words lines ∧
    ∀ offset ≤ source.size,
      indexAt words (.ofNat offset) = Line.indexAt lines offset ∧
      ((positionAt words (.ofNat offset)).1.toNat = (Line.positionAt lines offset).line ↔
        ¬(offset = sizeLimit ∧ ∀ c ∈ source, c = '\n')) ∧
      ((positionAt words (.ofNat offset)).2.toNat = (Line.positionAt lines offset).column ↔
        ¬(offset = sizeLimit ∧ '\n' ∉ source)) := by
  obtain ⟨hsize, -⟩ := Markdown.read_eq_ok_iff.mp hread
  intro lines words
  have hwords : words = lines.map Line.words := ofText_eq source
  have hstop : ∀ l ∈ lines, l.stop ≤ sizeLimit := by
    intro l hl
    have hle := ((Line.tiles_ofText source).bounds hl).2
    omega
  refine ⟨?_, fun offset hoffset => ?_⟩
  · rw [hwords, List.forall₂_map_left_iff, List.forall₂_same]
    intro l hl
    have hle := hstop l hl
    have hnewline := l.newlineStart_le_stop
    have hcontent : l.start + l.indentBytes ≤ l.newlineStart :=
      (Line.stands_of_mem_ofText hl).contentStart_le
    refine ⟨⟨?_, ?_, ?_, ?_⟩, ⟨rfl, fun cs _ => toNat_foldl_advance_eq_iff cs⟩, ?_⟩
    · exact toNat_ofNat_eq_iff.mpr (by omega)
    · exact toNat_ofNat_eq_iff.mpr (by omega)
    · exact toNat_ofNat_eq_iff.mpr hle
    · exact toNat_ofNat_eq_iff.mpr (by omega)
    · have hwidth := foldl_nextColumn_le l.indentation 0
      rwa [Nat.zero_add] at hwidth
  · have hlimit : offset ≤ sizeLimit := hoffset.trans hsize
    obtain ⟨hindex, hstart⟩ : Line.indexAt lines offset = source.feedsBefore offset ∧
        Line.startAt 0 lines offset + (source.sinceFeed offset).length = offset :=
      Line.counts_ofText hoffset
    have hline : (Line.positionAt lines offset).line = source.feedsBefore offset + 1 :=
      congrArg (· + 1) hindex
    have hcolumn : (Line.positionAt lines offset).column =
        (source.sinceFeed offset).length + 1 := by
      change offset - Line.startAt 0 lines offset + 1 = _
      omega
    rw [hwords, indexAt_map hstop hlimit, positionAt_map hstop hlimit (Nat.le.intro hstart), hline,
      hcolumn, toNat_ofNat_eq_iff, toNat_ofNat_eq_iff, ← Text.feedsBefore_eq_iff hoffset hsize,
      ← Text.length_sinceFeed_eq_iff hoffset hsize]
    have hfeeds := source.feedsBefore_le offset
    have hbytes := source.length_sinceFeed_le offset
    refine ⟨rfl, ?_, ?_⟩ <;> omega

/-- In a text of the largest size that is one line, the end has the right line in words, but not the
right column. -/
theorem exact_of_read_largest :
    let source : Text := List.replicate sizeLimit 'x'
    Markdown.read source = .ok (Markdown.parse source) ∧ sizeLimit ≤ source.size ∧
      (positionAt (ofText source) (.ofNat sizeLimit)).1.toNat =
        (Line.positionAt (Line.ofText source) sizeLimit).line ∧
      (positionAt (ofText source) (.ofNat sizeLimit)).2.toNat ≠
        (Line.positionAt (Line.ofText source) sizeLimit).column := by
  intro source
  have hmem : ∀ c ∈ source, c = 'x' := fun c hc => List.eq_of_mem_replicate hc
  have hsize : source.size = sizeLimit := by
    rw [Text.size_eq_length fun c hc => by rw [hmem c hc]; rfl, List.length_replicate]
  have hread := Markdown.read_eq_ok_iff.mpr ⟨Nat.le_of_eq hsize, rfl⟩
  have hend : sizeLimit ≤ source.size := Nat.le_of_eq hsize.symm
  obtain ⟨-, hline, hcolumn⟩ := (exact_of_read hread).2 sizeLimit hend
  refine ⟨hread, hend, hline.mpr ?_, fun h => hcolumn.mp h ⟨rfl, ?_⟩⟩
  · rintro ⟨-, hfeeds⟩
    have hx : 'x' ∈ source := List.mem_replicate.mpr ⟨by decide, rfl⟩
    exact absurd (hfeeds 'x' hx) (by decide)
  · exact fun h => absurd (hmem '\n' h) (by decide)

/-! ## An indentation of tabs -/

theorem foldl_nextColumn_tabs (k n : Nat) :
    (List.replicate n '\t').foldl Text.nextColumn (4 * k) = 4 * (k + n) := by
  induction n generalizing k with
  | zero => rfl
  | succ n ih =>
    have htab : Text.nextColumn (4 * k) '\t' = 4 * (k + 1) := by
      change (4 * k + 4) / 4 * 4 = _
      omega
    rw [List.replicate_succ, List.foldl_cons, htab, ih, Nat.add_right_comm, Nat.add_assoc]

theorem columns_tabs (n : Nat) : Text.columns (List.replicate n '\t') = 4 * n := by
  have hcolumns := foldl_nextColumn_tabs 0 n
  rwa [Nat.mul_zero, Nat.zero_add] at hcolumns

theorem indentation_tabs (n : Nat) :
    (Line.ofText (List.replicate n '\t' ++ ['#', 'x'])).map Line.indentation =
      [List.replicate n '\t'] := by
  have hmem : '\n' ∉ List.replicate n '\t' ++ ['#', 'x'] := by simp
  have hhash : Text.isWhitespace '#' = false := by decide
  have htabs : ∀ c ∈ List.replicate n '\t', Text.isWhitespace c = true := by
    intro c hc
    rw [List.eq_of_mem_replicate hc]
    decide
  have hindentation : Line.indentation ⟨0, List.replicate n '\t' ++ ['#', 'x'], [], false⟩ =
      List.replicate n '\t' := by
    rw [Line.indentation, if_neg (by simp [Line.isBlank, hhash]),
      List.takeWhile_append_of_pos htabs, List.takeWhile_cons_of_neg (by simp [hhash]),
      List.append_nil]
  rw [Line.ofText, Line.pieces_of_not_mem hmem (by simp), Line.layOut, Line.layOut,
    Line.ofPiece_of_not_mem hmem, List.map_singleton, hindentation]

theorem map_indent (lines : List Line) : lines.map Line.indent =
    (lines.map (·.indentation.columns)).map fun n => (UInt32.ofNat n).toNat := by
  rw [List.map_map]
  exact List.map_congr_left fun l _ => congrArg UInt32.toNat (foldl_advance l.indentation 0)

/-- A quarter of the largest size in tabs is one column too wide for a word. -/
theorem indent_of_many_tabs :
    let source : Text := List.replicate (2 ^ 30) '\t' ++ ['#', 'x']
    Markdown.read source = .ok (Markdown.parse source) ∧
      (Line.ofText source).map (·.indentation.columns) = [2 ^ 32] ∧
      (Line.ofText source).map Line.indent = [0] := by
  intro source
  have hsize : source.size = 2 ^ 30 + 2 := by
    have htabs : Text.size (List.replicate (2 ^ 30) '\t') = 2 ^ 30 := by
      rw [Text.size_eq_length fun c hc => by rw [List.eq_of_mem_replicate hc]; rfl,
        List.length_replicate]
    rw [Text.size_append, htabs]
    rfl
  have hcolumns : (Line.ofText source).map (·.indentation.columns) = [2 ^ 32] := by
    have hindentation := congrArg (List.map Text.columns) (indentation_tabs (2 ^ 30))
    rw [List.map_map, List.map_singleton, columns_tabs] at hindentation
    exact hindentation
  refine ⟨Markdown.read_eq_ok_iff.mpr ⟨?_, rfl⟩, hcolumns, ?_⟩
  · rw [hsize]
    decide
  · rw [map_indent, hcolumns]
    rfl

end LineWords
end Tidymark
