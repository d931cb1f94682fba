import Tidymark.Markdown.Assembly
import Tidymark.Proofs.Markdown.Spelling

/-! # Styles of headings and code

How a heading or a code block is written shows in its text: a heading is marked by hashes on a line
of its own, or underlined; code stands between fences, or is indented. A line that opens one of them
has that text. Whether a heading is underlined and whether code is fenced is told from the first
characters of the text alone. -/
namespace Tidymark.Markdown

open Text (isSpaceOrTab)

/-- The text of a heading marked by hashes: as many as its depth tells, behind blanks and before the
end of the text or another blank, on one line. -/
def Marked (depth : Nat) (t : Text) : Prop :=
  ∃ indent rest : Text, t = indent ++ List.replicate depth '#' ++ rest ∧ 1 ≤ depth ∧ depth ≤ 6 ∧
    (∀ c ∈ indent, isSpaceOrTab c = true) ∧ (∀ c ∈ rest.head?, isSpaceOrTab c = true) ∧
    ∀ c ∈ t, endsLine c = false

/-- The end of a line that underlines a heading: a run of equals signs or dashes, and blanks. -/
def Underline (depth : Nat) (t : Text) : Prop :=
  ∃ run behind : Text, t = run ++ behind ∧ run ≠ [] ∧
    (depth = 1 ∧ (∀ c ∈ run, c = '=') ∨ depth = 2 ∧ ∀ c ∈ run, c = '-') ∧
    ∀ c ∈ behind, isSpaceOrTab c = true

/-- The text of an underlined heading: its last line, which is not its first, underlines it. -/
def Underlined (depth : Nat) (t : Text) : Prop :=
  ∃ above underline : Text, t = above ++ underline ∧ (∃ c ∈ above, endsLine c = true) ∧
    Underline depth underline

/-- The text of code between fences: it starts with three or more marks of the opening fence. -/
def Fenced (t : Text) : Prop :=
  ∃ marker size rest, t = List.replicate size marker ++ rest ∧ 3 ≤ size ∧
    (marker = '`' ∨ marker = '~')

/-- The text of indented code: it starts with its indentation. -/
def Indented (t : Text) : Prop := ∃ c ∈ t.head?, isSpaceOrTab c = true

theorem Fenced.append {t : Text} (h : Fenced t) (u : Text) : Fenced (t ++ u) := by
  obtain ⟨marker, size, rest, rfl, hsize, hmarker⟩ := h
  exact ⟨marker, size, rest ++ u, by simp, hsize, hmarker⟩

theorem Indented.append {t : Text} (h : Indented t) (u : Text) : Indented (t ++ u) := by
  obtain ⟨c, hc, hblank⟩ := h
  cases t with
  | nil => cases hc
  | cons d t => exact ⟨c, hc, hblank⟩

section
variable {t : Text} {depth : Nat}

/-- No heading is both marked by hashes and underlined. -/
theorem Marked.not_underlined {d : Nat} (h : Marked depth t) : ¬ Underlined d t := by
  rintro ⟨above, underline, rfl, ⟨c, hc, hends⟩, -⟩
  obtain ⟨-, -, -, -, -, -, -, hline⟩ := h
  rw [hline c (List.mem_append_left underline hc)] at hends
  cases hends

theorem Fenced.exists_cons (h : Fenced t) : ∃ c u, t = c :: u ∧ (c = '`' ∨ c = '~') := by
  obtain ⟨marker, size, rest, rfl, hsize, hmarker⟩ := h
  obtain ⟨k, rfl⟩ : ∃ k, size = k + 1 := ⟨size - 1, by omega⟩
  exact ⟨marker, List.replicate k marker ++ rest, by rw [List.replicate_succ, List.cons_append],
    hmarker⟩

/-- No code is both fenced and indented. -/
theorem Fenced.not_indented (h : Fenced t) : ¬ Indented t := by
  obtain ⟨c, u, rfl, hc⟩ := h.exists_cons
  rintro ⟨d, hd, hblank⟩
  obtain rfl := Option.some.inj hd
  rcases hc with rfl | rfl <;> cases hblank

/-- A heading marked by hashes is never taken for an underlined one. -/
theorem looksSetext_of_marked (h : Marked depth t) : looksSetext t = false := by
  obtain ⟨indent, rest, htext, hdepth, -, hindent, -⟩ := h
  obtain ⟨k, rfl⟩ : ∃ k, depth = k + 1 := ⟨depth - 1, by omega⟩
  have hhash : isSpaceOrTab '#' = false := by decide
  have hdrop : t.dropWhile isSpaceOrTab = List.replicate (k + 1) '#' ++ rest := by
    rw [htext, List.append_assoc, List.dropWhile_append_of_pos hindent, List.replicate_succ,
      List.cons_append, List.dropWhile_cons_of_neg (by rw [hhash]; decide)]
  rw [looksSetext, hdrop, List.replicate_succ]
  rfl

theorem fenced_iff : Fenced t ↔
    (Text.startsWith t ['`', '`', '`'] || Text.startsWith t ['~', '~', '~']) = true := by
  simp only [Text.startsWith, Bool.or_eq_true, List.isPrefixOf_iff_prefix]
  constructor
  · rintro ⟨marker, size, rest, rfl, hsize, hmarker⟩
    obtain ⟨k, rfl⟩ : ∃ k, size = 3 + k := ⟨size - 3, by omega⟩
    have hprefix : List.replicate 3 marker <+: List.replicate (3 + k) marker ++ rest :=
      ⟨List.replicate k marker ++ rest, by rw [List.replicate_add, List.append_assoc]⟩
    rcases hmarker with rfl | rfl
    · exact .inl hprefix
    · exact .inr hprefix
  · rintro (⟨rest, rfl⟩ | ⟨rest, rfl⟩)
    · exact ⟨'`', 3, rest, rfl, le_rfl, .inl rfl⟩
    · exact ⟨'~', 3, rest, rfl, le_rfl, .inr rfl⟩

/-- Code is taken for fenced if it starts like that behind spaces. -/
theorem looksFenced_iff : looksFenced t = true ↔ Fenced (t.dropWhile (· == ' ')) :=
  fenced_iff.symm

/-- Code between fences is always taken for that. -/
theorem looksFenced_of_fenced (h : Fenced t) : looksFenced t = true := by
  have hdrop : t.dropWhile (· == ' ') = t := by
    obtain ⟨c, u, htext, hc⟩ := h.exists_cons
    rw [htext]
    rcases hc with rfl | rfl <;> rfl
  rwa [looksFenced_iff, hdrop]

end

namespace Cells

variable {cells rest : List Cell} {n : Nat}

/-- Up to `n` blanks are taken off the front. -/
theorem exists_front_dropUpTo (n : Nat) (cells : List Cell) :
    ∃ front, cells = front ++ dropUpTo n cells ∧ ∀ c ∈ front, c.isBlank = true := by
  induction n generalizing cells with
  | zero => exact ⟨[], rfl, by simp⟩
  | succ n ih =>
    cases cells with
    | nil => exact ⟨[], rfl, by simp⟩
    | cons c cells =>
      rw [dropUpTo]
      split
      · rename_i hblank
        obtain ⟨front, hcells, hfront⟩ := ih cells
        refine ⟨c :: front, congrArg (c :: ·) hcells, fun d hd => ?_⟩
        rcases List.mem_cons.mp hd with rfl | hd
        · exact hblank
        · exact hfront d hd
      · exact ⟨[], rfl, by simp⟩

theorem isBlank_of_dropExactly (h : dropExactly (n + 1) cells = some rest) :
    ∃ c more, cells = c :: more ∧ c.isBlank = true := by
  cases cells with
  | nil => cases h
  | cons c more =>
    rw [dropExactly] at h
    split at h
    · exact ⟨c, more, rfl, ‹_›⟩
    · cases h

end Cells

namespace Scan

variable {marker : Char} {cells : List Cell}

theorem drop_count (marker : Char) (cells : List Cell) :
    cells.drop (count marker cells) = many (· == marker) cells := by
  have hdrop := List.prefix_iff_eq_append.mp
    (List.takeWhile_prefix (l := cells) (fun c => c.char == marker))
  have hwhile := List.takeWhile_append_dropWhile (l := cells) (p := fun c => c.char == marker)
  exact List.append_cancel_left (hdrop.trans hwhile.symm)

theorem count_pos (h : Cells.headChar? cells = some marker) : 0 < count marker cells := by
  cases cells with
  | nil => cases h
  | cons c cells =>
    obtain rfl := Option.some.inj h
    rw [count, List.takeWhile_cons_of_pos (by simp), List.length_cons]
    omega

end Scan

section
variable {n depth : Nat} {cells rest text : List Cell} {t : Text} {row : Row} {fence : Line.Fence}

/-- What a line spells behind the indentation that a block may have. -/
theorem Spells.behind_indent (h : Spells n cells t) :
    ∃ indent body, t = indent ++ body ∧ (∀ c ∈ indent, isSpaceOrTab c = true) ∧
      Spells (n + Text.size indent) (Cells.dropIndent cells) body := by
  obtain ⟨front, hcells, hfront⟩ := Cells.exists_front_dropUpTo 3 cells
  rw [hcells] at h
  exact h.behind_blanks hfront

/-- What a line spells from a run of marks on: the run, and the rest. -/
theorem Spells.behind_count {marker : Char} (h : Spells n cells t)
    (hblank : isSpaceOrTab marker = false) :
    ∃ body, t = List.replicate (Scan.count marker cells) marker ++ body ∧
      Spells (n + Text.size (List.replicate (Scan.count marker cells) marker))
        (cells.drop (Scan.count marker cells)) body := by
  have hcells : cells.takeWhile (fun c => c.char == marker) ++
      cells.drop (Scan.count marker cells) = cells :=
    List.prefix_iff_eq_append.mp (List.takeWhile_prefix _)
  have hrun : ∀ c ∈ cells.takeWhile (fun c => c.char == marker), c.char = marker :=
    fun c hc => beq_iff_eq.mp (List.mem_takeWhile_imp (p := fun d : Cell => d.char == marker) hc)
  have htab : marker ≠ '\t' := by
    rintro rfl
    exact absurd hblank (by decide)
  exact (show Spells n (_ ++ _) t from hcells.symm ▸ h).behind_run htab hblank hrun

theorem Spells.isSpaceOrTab_of_allBlank (h : Spells n cells t)
    (hblank : Cells.allBlank cells = true) : ∀ c ∈ t, isSpaceOrTab c = true := by
  rw [← List.append_nil cells] at h
  obtain ⟨a, b, rfl, ha, hb⟩ := h.behind_blanks (List.all_eq_true.mp hblank)
  cases hb
  rwa [List.append_nil]

theorem Spells.isSpaceOrTab_of_head (h : Spells n cells t)
    (hblank : cells.head?.all Cell.isBlank = true) : ∀ c ∈ t.head?, isSpaceOrTab c = true := by
  cases cells with
  | nil =>
    cases h
    simp
  | cons c cells =>
    obtain ⟨x, u, rfl, hx⟩ := h.exists_cons
    intro d hd
    obtain rfl := Option.some.inj hd
    exact hx hblank

/-- A line that is a heading has its text. -/
theorem marked_of_hashHeading? (h : Spells n cells t)
    (hread : Line.hashHeading? cells = some (depth, text)) : Marked depth t := by
  simp only [Line.hashHeading?] at hread
  split at hread
  · rename_i hheading
    obtain ⟨rfl, -⟩ := Prod.mk.inj (Option.some.inj hread)
    simp only [Bool.and_eq_true, decide_eq_true_eq] at hheading
    obtain ⟨⟨hone, hsix⟩, hbehind⟩ := hheading
    obtain ⟨indent, body, rfl, hindent, hbody⟩ := h.behind_indent
    have hhash : isSpaceOrTab '#' = false := by decide
    obtain ⟨rest, rfl, hrest⟩ := hbody.behind_count hhash
    exact ⟨indent, rest, by simp, hone, hsix, hindent, hrest.isSpaceOrTab_of_head hbehind,
      h.not_endsLine⟩
  · cases hread

/-- A line that underlines a heading ends in a run of marks. -/
theorem underline_of_underlineDepth? (h : Spells n cells t)
    (hread : Line.underlineDepth? cells = some depth) :
    ∃ indent body, t = indent ++ body ∧ Underline depth body := by
  unfold Line.underlineDepth? at hread
  obtain ⟨marker, hmarker, hread⟩ := Option.bind_eq_some_iff.mp hread
  obtain ⟨_, hblanks, hread⟩ := Option.bind_eq_some_iff.mp hread
  have hmark : isSpaceOrTab marker = false ∧
      (depth = 1 ∧ marker = '=' ∨ depth = 2 ∧ marker = '-') := by
    split at hread
    · exact ⟨by decide, .inl ⟨(Option.some.inj hread).symm, rfl⟩⟩
    · exact ⟨by decide, .inr ⟨(Option.some.inj hread).symm, rfl⟩⟩
    · cases hread
  obtain ⟨indent, body, rfl, -, hbody⟩ := h.behind_indent
  obtain ⟨behind, rfl, hbehind⟩ := hbody.behind_count hmark.1
  have hpos := Scan.count_pos hmarker
  refine ⟨indent, _, rfl, _, behind, rfl, ?_, ?_, hbehind.isSpaceOrTab_of_allBlank ?_⟩
  · rw [ne_eq, List.replicate_eq_nil_iff]
    omega
  · rcases hmark.2 with ⟨hdepth, rfl⟩ | ⟨hdepth, rfl⟩
    · exact .inl ⟨hdepth, fun c hc => List.eq_of_mem_replicate hc⟩
    · exact .inr ⟨hdepth, fun c hc => List.eq_of_mem_replicate hc⟩
  · unfold Scan.onlyBlanks at hblanks
    split at hblanks
    · rw [Scan.drop_count]
      assumption
    · cases hblanks

/-- A line that opens a fence starts with its marks, where the fence does. -/
theorem fenced_of_openFence? (h : Spells n row.cells t) (hstop : row.stop = n + t.size)
    (hread : Line.openFence? row = some fence) :
    ∃ indent body, t = indent ++ body ∧ fence.start = n + Text.size indent ∧ Fenced body := by
  unfold Line.openFence? at hread
  obtain ⟨marker, hmarker, hread⟩ := Option.bind_eq_some_iff.mp hread
  obtain ⟨indent, body, rfl, -, hbody⟩ := h.behind_indent
  simp only at hread
  split at hread
  · rename_i hopens
    obtain rfl := Option.some.inj hread
    simp only [Bool.and_eq_true, Bool.or_eq_true, beq_iff_eq, decide_eq_true_eq] at hopens
    have hmark : marker = '`' ∨ marker = '~' := hopens.1.elim .inr fun h => .inl h.1
    have hblank : isSpaceOrTab marker = false := by rcases hmark with rfl | rfl <;> decide
    obtain ⟨behind, rfl, -⟩ := hbody.behind_count hblank
    refine ⟨indent, _, rfl, ?_, marker, _, behind, rfl, hopens.2, hmark⟩
    rw [hstop, Text.size_append, ← Nat.add_assoc]
    exact hbody.start_eq
  · cases hread

theorem indented_of_dropExactly (h : Spells n cells t)
    (hread : Cells.dropExactly 4 cells = some rest) : Indented t := by
  obtain ⟨c, more, rfl, hblank⟩ := Cells.isBlank_of_dropExactly hread
  obtain ⟨x, u, rfl, hx⟩ := h.exists_cons
  exact ⟨x, rfl, hx hblank⟩

end
end Tidymark.Markdown
