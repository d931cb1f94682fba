import Tidymark.Markdown.Cell
import Tidymark.Proofs.Text.Cut

/-! # What cells spell

A document is laid out as rows of cells, and blocks are read off the cells. What the cells of a line
spell is the text of that line: the rows of a document follow one another, line by line, up to its
end. A container takes cells off the front of a row, and where it cuts a tab, the rest of the tab
still stands for the whole of it. -/
namespace Tidymark.Markdown

/-- Whether a character ends a line. -/
def endsLine (c : Char) : Bool := c == '\n' || c == '\r'

/-- The cells spell a text without a line ending that starts at an offset: one cell stands for each
character, but for a tab, which has one for each of its columns that are left. -/
inductive Spells : Nat → List Cell → Text → Prop
  | nil (n : Nat) : Spells n [] []
  | char {n : Nat} {c : Cell} {cells : List Cell} {t : Text} (hstart : c.start = n)
      (htab : c.char ≠ '\t') (hends : endsLine c.char = false)
      (tail : Spells (n + c.char.utf8Size) cells t) : Spells n (c :: cells) (c.char :: t)
  /-- The last column of a tab. -/
  | tab {n : Nat} {c : Cell} {cells : List Cell} {t : Text} (hstart : c.start = n)
      (hblank : c.isBlank = true) (tail : Spells (n + 1) cells t) :
      Spells n (c :: cells) ('\t' :: t)
  /-- A column of a tab with another one behind it. -/
  | column {n : Nat} {c : Cell} {cells : List Cell} {t : Text} (hstart : c.start = n)
      (hblank : c.isBlank = true) (tail : Spells n cells ('\t' :: t)) :
      Spells n (c :: cells) ('\t' :: t)

namespace Spells

variable {n : Nat} {c : Cell} {cells rest front : List Cell} {t u : Text}

theorem tab_size : '\t'.utf8Size = 1 := rfl

/-- The rest of some cells spells the rest of their text. -/
theorem suffix (h : Spells n cells t) (hrest : rest <:+ cells) :
    ∃ a b, t = a ++ b ∧ Spells (n + Text.size a) rest b := by
  induction h with
  | nil n =>
    obtain rfl := List.suffix_nil.mp hrest
    exact ⟨[], [], rfl, .nil _⟩
  | @char n c cells t hstart htab hends tail ih =>
    rcases List.suffix_cons_iff.mp hrest with rfl | hrest
    · exact ⟨[], _, rfl, .char hstart htab hends tail⟩
    · obtain ⟨a, b, rfl, hb⟩ := ih hrest
      exact ⟨c.char :: a, b, rfl, by rwa [Text.size_cons, ← Nat.add_assoc]⟩
  | @tab n c cells t hstart hblank tail ih =>
    rcases List.suffix_cons_iff.mp hrest with rfl | hrest
    · exact ⟨[], _, rfl, .tab hstart hblank tail⟩
    · obtain ⟨a, b, rfl, hb⟩ := ih hrest
      exact ⟨'\t' :: a, b, rfl, by rwa [Text.size_cons, tab_size, ← Nat.add_assoc]⟩
  | @column n c cells t hstart hblank tail ih =>
    rcases List.suffix_cons_iff.mp hrest with rfl | hrest
    · exact ⟨[], _, rfl, .column hstart hblank tail⟩
    · exact ih hrest

/-- Behind blanks, the rest of some cells spells what is behind blanks of their text. -/
theorem behind_blanks (h : Spells n (front ++ rest) t) (hfront : ∀ c ∈ front, c.isBlank = true) :
    ∃ a b, t = a ++ b ∧ (∀ x ∈ a, Text.isSpaceOrTab x = true) ∧
      Spells (n + Text.size a) rest b := by
  induction front generalizing n t with
  | nil => exact ⟨[], t, rfl, by simp, h⟩
  | cons c front ih =>
    have hmore : ∀ d ∈ front, d.isBlank = true := fun d hd => hfront d (List.mem_cons_of_mem _ hd)
    cases h with
    | char hstart htab hends tail =>
      obtain ⟨a, b, rfl, ha, hb⟩ := ih tail hmore
      refine ⟨c.char :: a, b, rfl, fun x hx => ?_, by rwa [Text.size_cons, ← Nat.add_assoc]⟩
      rcases List.mem_cons.mp hx with rfl | hx
      · exact hfront c List.mem_cons_self
      · exact ha x hx
    | tab hstart hblank tail =>
      obtain ⟨a, b, rfl, ha, hb⟩ := ih tail hmore
      refine ⟨'\t' :: a, b, rfl, fun x hx => ?_,
        by rwa [Text.size_cons, tab_size, ← Nat.add_assoc]⟩
      rcases List.mem_cons.mp hx with rfl | hx
      · decide
      · exact ha x hx
    | column hstart hblank tail => exact ih tail hmore

/-- A run of one character other than a tab is spelled as it is. -/
theorem behind_run {x : Char} (h : Spells n (front ++ rest) t) (hx : x ≠ '\t')
    (hblank : Text.isSpaceOrTab x = false) (hfront : ∀ c ∈ front, c.char = x) :
    ∃ b, t = List.replicate front.length x ++ b ∧
      Spells (n + Text.size (List.replicate front.length x)) rest b := by
  induction front generalizing n t with
  | nil => exact ⟨t, rfl, h⟩
  | cons c front ih =>
    obtain rfl := hfront c List.mem_cons_self
    have hmore : ∀ d ∈ front, d.char = c.char := fun d hd => hfront d (List.mem_cons_of_mem _ hd)
    cases h with
    | char hstart htab hends tail =>
      obtain ⟨b, rfl, hb⟩ := ih tail hmore
      refine ⟨b, rfl, ?_⟩
      rwa [List.length_cons, List.replicate_succ, Text.size_cons, ← Nat.add_assoc]
    | tab hstart hc tail => exact absurd hc (by rw [Cell.isBlank, hblank]; decide)
    | column hstart hc tail => exact absurd hc (by rw [Cell.isBlank, hblank]; decide)

/-- Cells start where the text that they spell does. -/
theorem start_eq (h : Spells n cells t) : Cells.start (n + t.size) cells = n := by
  cases h with
  | nil => rfl
  | char hstart => exact hstart
  | tab hstart => exact hstart
  | column hstart => exact hstart

theorem not_endsLine (h : Spells n cells t) : ∀ x ∈ t, endsLine x = false := by
  induction h with
  | nil => simp
  | char hstart htab hends tail ih =>
    intro x hx
    rcases List.mem_cons.mp hx with rfl | hx
    · exact hends
    · exact ih x hx
  | tab hstart hblank tail ih =>
    intro x hx
    rcases List.mem_cons.mp hx with rfl | hx
    · decide
    · exact ih x hx
  | column hstart hblank tail ih => exact ih

/-- A cell that is no blank spells its character. -/
theorem exists_cons (h : Spells n (c :: cells) t) : ∃ x u, t = x :: u ∧
    (c.isBlank = true → Text.isSpaceOrTab x = true) := by
  cases h with
  | char => exact ⟨_, _, rfl, id⟩
  | tab => exact ⟨_, _, rfl, fun _ => by decide⟩
  | column => exact ⟨_, _, rfl, fun _ => by decide⟩

/-- Each cell starts at a character of the text. -/
theorem exists_start (h : Spells n cells t) (hc : c ∈ cells) :
    ∃ a b, t = a ++ b ∧ b ≠ [] ∧ c.start = n + Text.size a := by
  obtain ⟨before, rest, rfl⟩ := List.append_of_mem hc
  obtain ⟨a, b, rfl, hb⟩ := h.suffix (List.suffix_append before (c :: rest))
  obtain ⟨x, u, rfl, -⟩ := hb.exists_cons
  exact ⟨a, x :: u, rfl, by simp, (hb.start_eq).symm ▸ rfl⟩

theorem append {more : List Cell} (h : Spells n cells t) (hmore : Spells (n + t.size) more u) :
    Spells n (cells ++ more) (t ++ u) := by
  induction h with
  | nil => simpa using hmore
  | char hstart htab hends tail ih =>
    refine .char hstart htab hends (ih ?_)
    rwa [Text.size_cons, ← Nat.add_assoc] at hmore
  | tab hstart hblank tail ih =>
    refine .tab hstart hblank (ih ?_)
    rwa [Text.size_cons, tab_size, ← Nat.add_assoc] at hmore
  | column hstart hblank tail ih => exact .column hstart hblank (ih hmore)

/-- The cells of a tab spell it. -/
theorem tabCells (n width : Nat) (previous next : Option Char) (hwidth : 0 < width) :
    Spells n (tabCells n width previous next) ['\t'] := by
  have hcolumn : ∀ cells : List Cell, cells ≠ [] →
      (∀ c ∈ cells, c.start = n ∧ c.isBlank = true) → Spells n cells ['\t'] := by
    intro cells
    induction cells with
    | nil => exact fun hne => absurd rfl hne
    | cons c cells ih =>
      intro _ hcells
      obtain ⟨hstart, hblank⟩ := hcells c List.mem_cons_self
      by_cases hlast : cells = []
      · rw [hlast]
        exact .tab hstart hblank (.nil _)
      · exact .column hstart hblank (ih hlast fun d hd => hcells d (List.mem_cons_of_mem _ hd))
  refine hcolumn _ ?_ fun c hc => ?_
  · intro hnone
    have hlength := congrArg List.length hnone
    simp only [Markdown.tabCells, List.length_map, List.length_range, List.length_nil] at hlength
    omega
  · obtain ⟨i, -, rfl⟩ := List.mem_map.mp hc
    refine ⟨rfl, ?_⟩
    simp only [Cell.isBlank]
    split <;> decide

end Spells

/-- Rows that are laid out from the text that starts at an offset: each row spells a line, and its
ending cell holds the line ending. -/
inductive Lays : Nat → Text → List Row → Prop
  | nil (n : Nat) : Lays n [] []
  | last {n : Nat} {cells : List Cell} {t : Text} (h : Spells n cells t) :
      Lays n t [⟨cells, none, n + t.size⟩]
  | cons {n : Nat} {cells : List Cell} {t ending rest : Text} {rows : List Row}
      (h : Spells n cells t) (hne : ending ≠ []) (hends : ∀ c ∈ ending, endsLine c = true)
      (tail : Lays (n + Text.size (t ++ ending)) rest rows) :
      Lays n (t ++ ending ++ rest)
        (⟨cells, some (endingCell (n + t.size) ending), n + t.size⟩ :: rows)

theorem tabWidth_pos (column : Nat) : 0 < tabWidth column := by
  unfold tabWidth
  split <;> omega

theorem utf8Size_of_endsLine {c : Char} (h : endsLine c = true) : c.utf8Size = 1 := by
  simp only [endsLine, Bool.or_eq_true, beq_iff_eq] at h
  rcases h with rfl | rfl <;> rfl

/-- The cells that are laid out so far spell `u`. -/
theorem lays_layOut {n offset column : Nat} {previous : Option Char} {cells : List Cell}
    {u t : Text} (h : Spells n cells.reverse u) (hoffset : offset = n + u.size) :
    Lays n (u ++ t) (layOut offset column previous cells t) := by
  induction offset, column, previous, cells, t using layOut.induct generalizing n u with
  | case1 offset column previous cells hnone =>
    obtain rfl := List.isEmpty_iff.mp hnone
    cases h
    rw [layOut, if_pos List.isEmpty_nil]
    exact .nil n
  | case2 offset column previous cells hsome =>
    subst hoffset
    rw [layOut, if_neg hsome, List.append_nil]
    exact .last h
  | case3 offset column previous cells t ih =>
    subst hoffset
    have htail := ih (n := n + Text.size (u ++ ['\r', '\n'])) (.nil _)
      (by rw [Text.size_append, Nat.add_assoc]; rfl)
    have hrow := Lays.cons h (List.cons_ne_nil '\r' ['\n']) (by simp [endsLine]) htail
    rw [layOut]
    simpa using hrow
  | case4 offset column previous cells c t hcrlf hends ih =>
    subst hoffset
    have hsize : c.utf8Size = 1 := utf8Size_of_endsLine hends
    have htail := ih (n := n + Text.size (u ++ [c])) (.nil _)
      (by rw [Text.size_append, Text.size_cons, hsize, Nat.add_assoc]; rfl)
    have hrow := Lays.cons h (List.cons_ne_nil c []) (List.forall_mem_singleton.mpr hends) htail
    rw [layOut, if_pos hends]
    · simpa using hrow
    · exact hcrlf
  | case5 offset column previous cells c t hcrlf hends htab width =>
    rename_i ih
    subst hoffset
    obtain rfl := beq_iff_eq.mp htab
    have htabs := Spells.tabCells (n + u.size) width previous t.head? (tabWidth_pos column)
    have hmore := ih (n := n) (u := u ++ ['\t'])
      (by rw [List.reverse_append, List.reverse_reverse]; exact h.append htabs)
      (by rw [Text.size_append, Nat.add_assoc]; rfl)
    rw [layOut, if_neg hends, if_pos htab]
    · simpa using hmore
    · exact hcrlf
  | case6 offset column previous cells c t hcrlf hends htab ih =>
    subst hoffset
    have hcell : Spells (n + u.size)
        [⟨c, [c], n + u.size, n + u.size + c.utf8Size, 0, previous, t.head?⟩] [c] :=
      .char rfl (by simpa using htab) (by simpa [endsLine] using hends) (.nil _)
    have hmore := ih (n := n) (u := u ++ [c])
      (by rw [List.reverse_cons]; exact h.append hcell)
      (by rw [Text.size_append, Nat.add_assoc]; rfl)
    rw [layOut, if_neg hends, if_neg htab]
    · simpa using hmore
    · exact hcrlf

/-- The rows of a document are its lines, behind a byte order mark. -/
theorem exists_lays_rowsOf (source : Text) : ∃ mark text : Text, source = mark ++ text ∧
    Lays (Text.size mark) text (rowsOf source) := by
  unfold rowsOf
  split
  · exact ⟨['\uFEFF'], _, rfl, lays_layOut (u := []) (.nil _) rfl⟩
  · exact ⟨[], source, rfl, lays_layOut (u := []) (.nil _) rfl⟩

/-- What follows some rows of a document is laid out behind their text. -/
theorem Lays.suffix {n : Nat} {t : Text} {rows rest : List Row} (h : Lays n t rows)
    (hrest : rest <:+ rows) : ∃ a b, t = a ++ b ∧ Lays (n + Text.size a) b rest := by
  induction h with
  | nil n =>
    obtain rfl := List.suffix_nil.mp hrest
    exact ⟨[], [], rfl, .nil _⟩
  | @last n cells t h =>
    rcases List.suffix_cons_iff.mp hrest with rfl | hrest
    · exact ⟨[], t, rfl, .last h⟩
    · obtain rfl := List.suffix_nil.mp hrest
      exact ⟨t, [], by simp, .nil _⟩
  | @cons n cells t ending text rows h hne hends tail ih =>
    rcases List.suffix_cons_iff.mp hrest with rfl | hrest
    · exact ⟨[], _, rfl, .cons h hne hends tail⟩
    · obtain ⟨a, b, rfl, hb⟩ := ih hrest
      exact ⟨t ++ ending ++ a, b, by simp, by rwa [Text.size_append, ← Nat.add_assoc]⟩

end Tidymark.Markdown
