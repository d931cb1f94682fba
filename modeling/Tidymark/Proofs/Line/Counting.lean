import Mathlib.Data.List.DropRight
import Mathlib.Data.Prod.Lex
import Mathlib.Order.Interval.Set.Defs
import Mathlib.Order.Monotone.Basic
import Tidymark.Proofs.Line.Block
import Tidymark.Proofs.Line.Pieces
import Tidymark.Text.Utf8

/-! # Counting line feeds

Lines are found by a search among their starts, and a text that ends in a line feed has one position
more, past its last line. A position is a plain count all the same: of the line feeds before an
offset, and of the bytes behind the last of them. Encoded text has the byte of a line feed nowhere
but in a line feed, so the count goes line by line. -/
namespace Tidymark

namespace Text

/-- The byte of a line feed. -/
def feed : UInt8 := 10

/-- The number of line feeds among the first `n` bytes. -/
def feedsBefore (t : Text) (n : Nat) : Nat := ((encode t).take n).count feed

/-- Of the first `n` bytes those behind their last line feed. -/
def sinceFeed (t : Text) (n : Nat) : List UInt8 := ((encode t).take n).rtakeWhile (· != feed)

variable {s t : Text} {m n : Nat}

/-- A byte below 128 is a character of its own. -/
theorem toNat_of_mem_utf8EncodeChar {c : Char} {b : UInt8} (h : b ∈ String.utf8EncodeChar c) :
    b.toNat = c.toNat ∨ 128 ≤ b.toNat := by
  have hbyte : ∀ k < 256, (UInt8.ofNat k).toNat = k := by
    intro k hk
    rw [UInt8.toNat_ofNat', Nat.mod_eq_of_lt hk]
  rw [Char.toNat]
  unfold String.utf8EncodeChar at h
  dsimp only at h
  generalize c.val.toNat = k at *
  split at h
  · obtain rfl := List.mem_singleton.mp h
    exact .inl (hbyte k (by omega))
  · right
    split at h
    · simp only [List.mem_cons, List.not_mem_nil, or_false] at h
      rcases h with rfl | rfl <;> rw [hbyte _ (by omega)] <;> omega
    · split at h
      · simp only [List.mem_cons, List.not_mem_nil, or_false] at h
        rcases h with rfl | rfl | rfl <;> rw [hbyte _ (by omega)] <;> omega
      · simp only [List.mem_cons, List.not_mem_nil, or_false] at h
        rcases h with rfl | rfl | rfl | rfl <;> rw [hbyte _ (by omega)] <;> omega

theorem feed_not_mem_encode (h : '\n' ∉ t) : feed ∉ encode t := by
  intro hmem
  obtain ⟨c, hc, hfeed⟩ := List.mem_flatMap.mp hmem
  rcases toNat_of_mem_utf8EncodeChar hfeed with hcode | hcode
  · obtain rfl : c = '\n' := Char.ext (UInt32.toNat_inj.mp hcode.symm)
    exact h hc
  · exact absurd hcode (by decide)

theorem encode_newline : encode ['\n'] = [feed] := by decide

/-- What goes before a line feed does not count. -/
theorem rtakeWhile_append_feed (bytes rest : List UInt8) :
    (bytes ++ feed :: rest).rtakeWhile (· != feed) = rest.rtakeWhile (· != feed) := by
  induction rest using List.reverseRecOn with
  | nil => exact List.rtakeWhile_concat_neg _ _ _ (by simp)
  | append_singleton rest b ih =>
    rw [← List.cons_append, ← List.append_assoc, List.rtakeWhile_concat, List.rtakeWhile_concat, ih]

theorem rtakeWhile_append_of_not_mem (bytes : List UInt8) {rest : List UInt8} (h : feed ∉ rest) :
    (bytes ++ rest).rtakeWhile (· != feed) = bytes.rtakeWhile (· != feed) ++ rest := by
  induction rest using List.reverseRecOn with
  | nil => simp
  | append_singleton rest b ih =>
    simp only [List.mem_append, List.mem_singleton, not_or] at h
    rw [← List.append_assoc, List.rtakeWhile_concat_pos _ _ _ (by simpa using Ne.symm h.2), ih h.1,
      List.append_assoc]

theorem feedsBefore_of_not_mem (h : '\n' ∉ t) (n : Nat) : feedsBefore t n = 0 :=
  List.count_eq_zero.mpr fun hmem => feed_not_mem_encode h (List.mem_of_mem_take hmem)

theorem sinceFeed_of_not_mem (h : '\n' ∉ t) (n : Nat) : sinceFeed t n = (encode t).take n :=
  List.rtakeWhile_eq_self_iff.mpr fun b hb => by
    rw [bne_iff_ne]
    rintro rfl
    exact feed_not_mem_encode h (List.mem_of_mem_take hb)

/-- Inside of a line only the bytes of this line count. -/
theorem take_encode_append (hn : n ≤ s.size) : (encode (s ++ t)).take n = (encode s).take n := by
  rw [encode_append, List.take_append_of_le_length (by rwa [length_encode])]

theorem take_encode_line (hn : s.size < n) : (encode (s ++ ['\n'] ++ t)).take n =
    encode s ++ feed :: (encode t).take (n - (s ++ ['\n']).size) := by
  have hsize : (s ++ ['\n']).size = s.size + 1 := by rw [size_append]; rfl
  have hlength : (encode (s ++ ['\n'])).length = s.size + 1 := by rw [length_encode, hsize]
  rw [encode_append, List.take_append, List.take_of_length_le (by omega), hlength, hsize,
    encode_append, encode_newline, List.append_assoc, List.singleton_append]

/-- Further on there are more line feeds, or as many and more bytes behind the last of them. -/
theorem feedsBefore_lt_or (hmn : m < n) (hn : n ≤ t.size) : feedsBefore t m < feedsBefore t n ∨
    feedsBefore t m = feedsBefore t n ∧ (sinceFeed t m).length < (sinceFeed t n).length := by
  have hsplit : (encode t).take n = (encode t).take m ++ ((encode t).drop m).take (n - m) := by
    rw [← List.take_add, Nat.add_sub_of_le (Nat.le_of_lt hmn)]
  rw [feedsBefore, feedsBefore, sinceFeed, sinceFeed, hsplit, List.count_append]
  by_cases hfeed : feed ∈ ((encode t).drop m).take (n - m)
  · have hpos := List.count_pos_iff.mpr hfeed
    exact .inl (by omega)
  · refine .inr ⟨by rw [List.count_eq_zero.mpr hfeed, Nat.add_zero], ?_⟩
    rw [rtakeWhile_append_of_not_mem _ hfeed, List.length_append, List.length_take,
      List.length_drop, length_encode]
    omega

theorem feed_mem_encode_iff : feed ∈ encode t ↔ '\n' ∈ t := by
  refine ⟨fun h => by_contra fun hnot => feed_not_mem_encode hnot h, fun h => ?_⟩
  exact List.mem_flatMap.mpr ⟨'\n', h, by decide⟩

theorem forall_encode_eq_feed_iff : (∀ b ∈ encode t, feed = b) ↔ ∀ c ∈ t, c = '\n' := by
  constructor
  · intro h c hc
    have hlen : 0 < (String.utf8EncodeChar c).length := by
      rw [String.length_utf8EncodeChar]
      exact c.utf8Size_pos
    obtain ⟨b, hb⟩ := List.exists_mem_of_length_pos hlen
    obtain rfl := h b (List.mem_flatMap.mpr ⟨c, hc, hb⟩)
    rcases toNat_of_mem_utf8EncodeChar hb with hcode | hcode
    · exact Char.ext (UInt32.toNat_inj.mp hcode.symm)
    · exact absurd hcode (by decide)
  · intro h b hb
    obtain ⟨c, hc, hb⟩ := List.mem_flatMap.mp hb
    obtain rfl := h c hc
    exact (List.mem_singleton.mp hb).symm

theorem feedsBefore_le (t : Text) (n : Nat) : t.feedsBefore n ≤ n :=
  List.count_le_length.trans (List.length_take_le ..)

theorem length_sinceFeed_le (t : Text) (n : Nat) : (t.sinceFeed n).length ≤ n :=
  (List.rtakeWhile_suffix _ _).length_le.trans (List.length_take_le ..)

/-- As many line feeds as there can be at all are before the end of a text of line feeds only. -/
theorem feedsBefore_eq_iff (hn : n ≤ t.size) (hm : t.size ≤ m) :
    t.feedsBefore n = m ↔ n = m ∧ ∀ c ∈ t, c = '\n' := by
  have hle := t.feedsBefore_le n
  have hend : n = m → (t.feedsBefore n = m ↔ ∀ c ∈ t, c = '\n') := by
    rintro rfl
    have hlength : (encode t).length = n := (length_encode t).trans (Nat.le_antisymm hm hn)
    rw [← forall_encode_eq_feed_iff, ← List.count_eq_length, feedsBefore,
      List.take_of_length_le (Nat.le_of_eq hlength), hlength]
  refine ⟨fun h => ?_, fun h => (hend h.1).mpr h.2⟩
  have hnm : n = m := by omega
  exact ⟨hnm, (hend hnm).mp h⟩

/-- As many bytes as there can be at all follow the last line feed before the end of a text without
line feeds. -/
theorem length_sinceFeed_eq_iff (hn : n ≤ t.size) (hm : t.size ≤ m) :
    (t.sinceFeed n).length = m ↔ n = m ∧ '\n' ∉ t := by
  have hle := t.length_sinceFeed_le n
  have hend : n = m → ((t.sinceFeed n).length = m ↔ '\n' ∉ t) := by
    rintro rfl
    have hlength : (encode t).length = n := (length_encode t).trans (Nat.le_antisymm hm hn)
    have hself := List.rtakeWhile_eq_self_iff (p := (· != feed)) (l := encode t)
    rw [sinceFeed, List.take_of_length_le (Nat.le_of_eq hlength), ← feed_mem_encode_iff]
    refine ⟨fun h hfeed => ?_, fun hnot => ?_⟩
    · have hall := (List.rtakeWhile_suffix _ _).eq_of_length (h.trans hlength.symm)
      simpa using hself.mp hall feed hfeed
    · rw [hself.mpr fun b hb => bne_iff_ne.mpr fun h => hnot (h ▸ hb), hlength]
  refine ⟨fun h => ?_, fun h => (hend h.1).mpr h.2⟩
  have hnm : n = m := by omega
  exact ⟨hnm, (hend hnm).mp h⟩

end Text

namespace Line

/-- Where the line of an offset starts, of lines that start at `n`. -/
def startAt (n : Nat) (lines : List Line) (offset : Nat) : Nat :=
  match lines[indexAt lines offset]? with
  | some line => line.start
  | none => (lines.getLast?.map stop).getD n

variable {n offset : Nat} {t : Text} {lines rest : List Line} {l : Line} {ps : List Text}

theorem indexAt_of_lt (h : Tiles n t (l :: rest)) (hstart : n ≤ offset)
    (hstop : offset < l.stop) : indexAt (l :: rest) offset = 0 := by
  cases h with
  | cons tail => exact indexAt_split (show Tiles _ _ ([] ++ _ :: rest) from .cons tail) hstart hstop

/-- An offset behind a line feed lies on the lines that follow. -/
theorem indexAt_cons (h : Tiles n t (l :: rest)) (hnewline : l.hasNewline = true)
    (hstop : l.stop ≤ offset) : indexAt (l :: rest) offset = indexAt rest offset + 1 := by
  have hle := l.start_le_stop
  have hfirst : l.start ≤ offset := by omega
  cases rest with
  | nil => simp [indexAt, hfirst, hstop, hnewline]
  | cons k rest =>
    have hk : k.start ≤ offset := by
      generalize hlines : l :: k :: rest = lines at h
      cases h with
      | nil => cases hlines
      | cons tail =>
        obtain ⟨rfl, rfl⟩ := List.cons.inj hlines
        rwa [tail.start_eq]
    have hscan : (k :: rest).takeWhile (fun l => l.start ≤ offset) =
        k :: rest.takeWhile (fun l => l.start ≤ offset) :=
      List.takeWhile_cons_of_pos (by simpa using hk)
    have hscan' : (l :: k :: rest).takeWhile (fun l => l.start ≤ offset) =
        l :: k :: rest.takeWhile (fun l => l.start ≤ offset) := by
      rw [List.takeWhile_cons_of_pos (by simpa using hfirst), hscan]
    simp only [indexAt, hscan, hscan', List.length_cons, Nat.add_sub_cancel,
      List.getElem?_cons_succ]
    split
    · split
      · rfl
      · rfl
    · rfl

theorem startAt_cons (h : Tiles n t (l :: rest)) (hnewline : l.hasNewline = true)
    (hstop : l.stop ≤ offset) : startAt n (l :: rest) offset = startAt l.stop rest offset := by
  rw [startAt, startAt, indexAt_cons h hnewline hstop, List.getElem?_cons_succ]
  cases rest with
  | nil => rfl
  | cons k rest => rfl

/-- Along lines that each end in their only line feed, the index of an offset counts line feeds, and
between the start of its line and the offset there is none. -/
theorem Closed.counts (h : Closed ps) (hstart : n ≤ offset)
    (hstop : offset ≤ n + Text.size ps.flatten) :
    indexAt (layOut n ps) offset = Text.feedsBefore ps.flatten (offset - n) ∧
      startAt n (layOut n ps) offset + (Text.sinceFeed ps.flatten (offset - n)).length =
        offset := by
  induction h generalizing n with
  | nil =>
    obtain rfl : offset = n := by simpa using Nat.le_antisymm hstop hstart
    simp [layOut, indexAt, startAt, Text.feedsBefore, Text.sinceFeed]
  | @last t h =>
    rw [List.flatten_singleton] at hstop ⊢
    have hindex : indexAt [⟨n, t, [], false⟩] offset = 0 := by simp [indexAt, hstart, hasNewline]
    rw [layOut, layOut, ofPiece_of_not_mem h, startAt, hindex, Text.feedsBefore_of_not_mem h,
      Text.sinceFeed_of_not_mem h, List.length_take, Text.length_encode]
    refine ⟨rfl, ?_⟩
    simp only [List.getElem?_cons_zero]
    omega
  | @cons t rest h tail ih =>
    have hsize : Text.size (t ++ ['\n']) = t.size + 1 := by rw [Text.size_append]; rfl
    have htiles := tiles_layOut n ((t ++ ['\n']) :: rest)
    rw [layOut] at htiles ⊢
    have hlineStop : (ofPiece n (t ++ ['\n'])).stop = n + Text.size (t ++ ['\n']) := by
      rw [stop_eq, whole_ofPiece]
      rfl
    rw [List.flatten_cons, Text.size_append] at hstop
    rw [List.flatten_cons]
    by_cases hbefore : offset < n + Text.size (t ++ ['\n'])
    · have hindex := indexAt_of_lt htiles hstart (hlineStop ▸ hbefore)
      have hbytes : ((Text.encode (t ++ ['\n'] ++ rest.flatten)).take (offset - n)) =
          (Text.encode t).take (offset - n) := by
        rw [List.append_assoc]
        exact Text.take_encode_append (by omega)
      rw [startAt, hindex, Text.feedsBefore, Text.sinceFeed, hbytes, ← Text.feedsBefore,
        ← Text.sinceFeed, Text.feedsBefore_of_not_mem h, Text.sinceFeed_of_not_mem h,
        List.length_take, Text.length_encode]
      refine ⟨rfl, ?_⟩
      simp only [List.getElem?_cons_zero]
      change n + _ = _
      omega
    · obtain ⟨x, hx, -⟩ := exists_terminator_ofPiece n t
      have hnewline : (ofPiece n (t ++ ['\n'])).hasNewline = true := by simp [hasNewline, hx]
      have hbehind : (ofPiece n (t ++ ['\n'])).stop ≤ offset := by omega
      have hbytes := Text.take_encode_line (s := t) (t := rest.flatten) (n := offset - n) (by omega)
      obtain ⟨hcount, hsince⟩ := ih (n := n + Text.size (t ++ ['\n'])) (by omega) (by omega)
      rw [indexAt_cons htiles hnewline hbehind, startAt_cons htiles hnewline hbehind, hlineStop,
        Text.feedsBefore, Text.sinceFeed, hbytes, Text.rtakeWhile_append_feed, List.count_append,
        List.count_cons_self, List.count_eq_zero.mpr (Text.feed_not_mem_encode h), Nat.zero_add,
        Nat.sub_sub]
      exact ⟨congrArg (· + 1) hcount, hsince⟩

/-- The count over the lines of a text. -/
theorem counts_ofText {source : Text} (h : offset ≤ source.size) :
    indexAt (ofText source) offset = source.feedsBefore offset ∧
      startAt 0 (ofText source) offset + (source.sinceFeed offset).length = offset := by
  have hcounts := (closed_pieces source).counts (Nat.zero_le offset)
    (by rwa [flatten_pieces, Nat.zero_add])
  rwa [flatten_pieces, Nat.sub_zero] at hcounts

end Line

namespace Snapshot

variable {path : String} {source : Text} {root : Node} {offset : Nat}

theorem getElem?_markVerbatim (spans : List Span) (lines : List Line) (i : Nat) :
    ∃ verbatim : Line → Bool, (markVerbatim spans lines)[i]? =
      lines[i]?.map fun l => { l with verbatim := verbatim l } :=
  ⟨_, List.getElem?_map ..⟩

/-- Where lines are does not hang on which of them are verbatim. -/
theorem indexAt_markVerbatim (spans : List Span) (lines : List Line) (offset : Nat) :
    Line.indexAt (markVerbatim spans lines) offset = Line.indexAt lines offset := by
  have hscan : ((markVerbatim spans lines).takeWhile fun l => l.start ≤ offset).length =
      (lines.takeWhile fun l => l.start ≤ offset).length := by
    simp [markVerbatim, List.takeWhile_map, Function.comp_def]
  obtain ⟨verbatim, hget⟩ := getElem?_markVerbatim spans lines
    ((lines.takeWhile fun l => l.start ≤ offset).length - 1)
  simp only [Line.indexAt, hscan, hget]
  cases lines[(lines.takeWhile fun l => l.start ≤ offset).length - 1]? <;> rfl

theorem startAt_markVerbatim (spans : List Span) (lines : List Line) (n offset : Nat) :
    Line.startAt n (markVerbatim spans lines) offset = Line.startAt n lines offset := by
  obtain ⟨verbatim, hget⟩ := getElem?_markVerbatim spans lines (Line.indexAt lines offset)
  have hlast : (markVerbatim spans lines).getLast?.map Line.stop =
      lines.getLast?.map Line.stop := by
    rw [markVerbatim, List.getLast?_map, Option.map_map]
    rfl
  simp only [Line.startAt, indexAt_markVerbatim, hget, hlast]
  cases lines[Line.indexAt lines offset]? <;> rfl

theorem counts_of_le (h : offset ≤ source.size) :
    (ofTree path source root).lineIndex offset = source.feedsBefore offset ∧
      (ofTree path source root).position offset =
        ⟨1 + source.feedsBefore offset, 1 + (source.sinceFeed offset).length⟩ := by
  obtain ⟨hindex, hstart⟩ := Line.counts_ofText h
  have hline : (ofTree path source root).lineIndex offset = source.feedsBefore offset := by
    rw [← hindex]
    exact indexAt_markVerbatim _ _ _
  have hposition : (ofTree path source root).position offset =
      ⟨(ofTree path source root).lineIndex offset + 1,
        offset - Line.startAt 0 (Line.ofText source) offset + 1⟩ := by
    rw [← startAt_markVerbatim]
    rfl
  refine ⟨hline, ?_⟩
  rw [hposition, hline, Nat.add_comm 1, Nat.add_comm 1]
  congr 2
  omega

/-- The line index of an offset is the number of line feeds before it. Its position counts these
from one, and so the bytes behind the last of them or from the start of the text. Positions grow
along a text, and no two offsets share one. -/
theorem position_counts_feeds (path : String) (source : Text) (root : Node) :
    let s := ofTree path source root
    (∀ offset ≤ source.size, s.lineIndex offset = source.feedsBefore offset ∧
      s.position offset =
        ⟨1 + source.feedsBefore offset, 1 + (source.sinceFeed offset).length⟩) ∧
    StrictMonoOn (fun offset => toLex ((s.position offset).line, (s.position offset).column))
      (Set.Iic source.size) ∧
    Set.InjOn s.position (Set.Iic source.size) := by
  intro s
  have hcounts : ∀ offset ≤ source.size, s.lineIndex offset = source.feedsBefore offset ∧
      s.position offset =
        ⟨1 + source.feedsBefore offset, 1 + (source.sinceFeed offset).length⟩ :=
    fun _ => counts_of_le
  have hgrows : StrictMonoOn
      (fun offset => toLex ((s.position offset).line, (s.position offset).column))
      (Set.Iic source.size) := by
    intro a ha b hb hab
    rw [Prod.Lex.toLex_lt_toLex, (hcounts a ha).2, (hcounts b hb).2]
    rcases Text.feedsBefore_lt_or hab hb with hline | ⟨hline, hcolumn⟩
    · exact .inl (by simpa using hline)
    · exact .inr ⟨by simpa using hline, by simpa using hcolumn⟩
  refine ⟨hcounts, hgrows, fun a ha b hb hab => hgrows.injOn ha hb ?_⟩
  simp only [hab]

/-- A carriage return before a line feed counts in the column, and so does each byte of a character;
behind the last line feed starts a line. -/
theorem position_counts_feeds_mixed :
    let s := ofTree "a.md" ['a', '\r', '\n', 'ä', '\n'] (.branch .root ⟨0, 6⟩ [])
    (2 ≤ 6 ∧ s.position 2 = ⟨1, 3⟩) ∧ (4 ≤ 6 ∧ s.position 4 = ⟨2, 2⟩) ∧
      6 ≤ 6 ∧ s.lineIndex 6 = 2 ∧ s.position 6 = ⟨3, 1⟩ := by
  intro s
  obtain ⟨hcounts, -, -⟩ := position_counts_feeds "a.md" ['a', '\r', '\n', 'ä', '\n']
    (.branch .root ⟨0, 6⟩ [])
  exact ⟨⟨by decide, (hcounts 2 (by decide)).2⟩, ⟨by decide, (hcounts 4 (by decide)).2⟩, by decide,
    hcounts 6 (by decide)⟩

end Snapshot
end Tidymark
