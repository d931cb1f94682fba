import Tidymark.Proofs.Edit.Sparing
import Tidymark.Proofs.Line.Position
import Tidymark.Proofs.Repetition

/-! # Blocks of verbatim lines

The lines of code and front matter form blocks, the longest runs of such lines that follow one
another. An edit on any other line spares them all. -/
namespace Tidymark

namespace Line

/-- Lines that follow one another as one passage. -/
def passage (lines : List Line) : Passage := ⟨(lines.head?.map start).getD 0, lines.flatMap whole⟩

/-- The longest runs of verbatim lines. -/
def verbatimBlocks (lines : List Line) : List Passage :=
  ((lines.splitBy fun k l => k.verbatim == l.verbatim).filter (·.all (·.verbatim))).map passage

variable {n : Nat} {t : Text} {lines before after : List Line} {l : Line}

theorem Tiles.eq_flatMap (h : Tiles n t lines) : t = lines.flatMap whole := by
  induction h with
  | nil => rfl
  | cons tail ih => rw [List.flatMap_cons, ← ih]

theorem Tiles.passage_eq (h : Tiles n t lines) (hne : lines ≠ []) : passage lines = ⟨n, t⟩ := by
  rw [passage, ← h.eq_flatMap]
  cases h with
  | nil => exact absurd rfl hne
  | cons tail => rfl

theorem Tiles.exists_stop_eq (h : Tiles n t lines) (hne : lines ≠ []) :
    ∃ l ∈ lines, l.stop = n + t.size := by
  induction h with
  | nil => exact absurd rfl hne
  | @cons l behind rest tail ih =>
    cases rest with
    | nil =>
      obtain rfl := tail.eq_flatMap
      exact ⟨l, by simp, by rw [stop_eq]; simp⟩
    | cons k rest =>
      obtain ⟨last, hlast, hstop⟩ := ih (by simp)
      refine ⟨last, by simp [hlast], ?_⟩
      rw [hstop, stop_eq, Text.size_append, Nat.add_assoc]

theorem stand_passages {groups : List (List Line)} (h : Tiles n t groups.flatten)
    (hne : ∀ g ∈ groups, g ≠ []) (q : List Line → Bool) :
    Passage.Stand n ((groups.filter q).map passage) t := by
  induction groups generalizing n t with
  | nil => exact .nil n t
  | cons g groups ih =>
    obtain ⟨a, b, rfl, hg, hrest⟩ := h.exists_append
    have htail := ih hrest fun g hg => hne g (by simp [hg])
    have hpassage := hg.passage_eq (hne g (by simp))
    rw [List.filter_cons]
    split
    · have hstand : Passage.Stand n (⟨n, a⟩ :: _) ([] ++ a ++ b) := .cons rfl htail
      rwa [List.map_cons, hpassage]
    · exact htail.prepend

/-- The blocks stand in the text that the lines make up. -/
theorem Tiles.stand_verbatimBlocks (h : Tiles n t lines) :
    Passage.Stand n (verbatimBlocks lines) t :=
  stand_passages (by rwa [List.flatten_splitBy]) (fun _ => List.ne_nil_of_mem_splitBy) _

theorem exists_of_mem_verbatimBlocks {p : Passage} (h : p ∈ verbatimBlocks lines) :
    ∃ before block after, lines = before ++ block ++ after ∧ block ≠ [] ∧
      (∀ l ∈ block, l.verbatim = true) ∧ passage block = p := by
  obtain ⟨block, hblock, rfl⟩ := List.mem_map.mp h
  obtain ⟨hblock, hverbatim⟩ := List.mem_filter.mp hblock
  have hlines := List.flatten_splitBy (fun k l : Line => k.verbatim == l.verbatim) lines
  obtain ⟨before, after, hgroups⟩ := List.append_of_mem hblock
  rw [hgroups] at hlines
  exact ⟨before.flatten, block, after.flatten, by simp [← hlines],
    List.ne_nil_of_mem_splitBy hblock, by simpa using hverbatim, rfl⟩

theorem Tiles.start_eq (h : Tiles n t (l :: lines)) : l.start = n := by
  cases h
  rfl

/-- A span whose lines are all verbatim lies in one group of lines, if lines at the border of two
groups are never both verbatim. -/
theorem Tiles.exists_group {groups : List (List Line)} {s : Span} (h : Tiles n t groups.flatten)
    (hne : ∀ g ∈ groups, g ≠ [])
    (hborder : groups.IsChain fun g g' =>
      ∃ hg hg', (g.getLast hg).verbatim ≠ (g'.head hg').verbatim)
    (hlevel : ∀ g ∈ groups, ∀ k ∈ g, ∀ l ∈ g, k.verbatim = l.verbatim)
    (hstart : n ≤ s.start) (hspan : s.start < s.stop) (hstop : s.stop ≤ n + t.size)
    (hverbatim : ∀ l ∈ groups.flatten, l.start < s.stop → s.start < l.stop → l.verbatim = true) :
    ∃ g ∈ groups, (∀ l ∈ g, l.verbatim = true) ∧
      (passage g).start ≤ s.start ∧ s.stop ≤ (passage g).stop := by
  induction groups generalizing n t with
  | nil =>
    obtain rfl : t = [] := h.eq_flatMap
    rw [Text.size_nil] at hstop
    omega
  | cons g groups ih =>
    obtain ⟨a, b, rfl, hg, hrest⟩ := h.exists_append
    rw [Text.size_append] at hstop
    by_cases hbehind : n + a.size ≤ s.start
    · obtain ⟨g', hg', hfound⟩ := ih hrest (fun g hg => hne g (by simp [hg])) hborder.tail
        (fun g hg => hlevel g (by simp [hg])) hbehind (by omega)
        (fun l hl => hverbatim l (by simp [hl]))
      exact ⟨g', by simp [hg'], hfound⟩
    · obtain ⟨before, k, after, hlines, hk, hk'⟩ :=
        hg.exists_line hstart (Nat.lt_of_not_le hbehind)
      have hkg : k ∈ g := by simp [hlines]
      have hall : ∀ l ∈ g, l.verbatim = true := by
        intro l hl
        rw [hlevel g (by simp) l hl k hkg]
        exact hverbatim k (by simp [hkg]) (by omega) hk'
      refine ⟨g, by simp, hall, ?_⟩
      rw [hg.passage_eq (hne g (by simp))]
      refine ⟨hstart, ?_⟩
      by_contra hcrosses
      have hcrosses : n + a.size < s.stop := Nat.lt_of_not_le hcrosses
      cases groups with
      | nil =>
        obtain rfl : b = [] := hrest.eq_flatMap
        rw [Text.size_nil] at hstop
        omega
      | cons g' groups =>
        obtain ⟨_, hne', hturn⟩ := (List.isChain_cons_cons.mp hborder).1
        obtain ⟨first, others, rfl⟩ := List.exists_cons_of_ne_nil hne'
        have hfirst : first.start = n + a.size := Tiles.start_eq hrest
        have hle := first.start_le_stop
        apply hturn
        rw [hall _ (List.getLast_mem _), List.head_cons]
        exact (hverbatim first (by simp) (by omega) (by omega)).symm

/-- A span whose lines are all verbatim lies in one block. -/
theorem Tiles.exists_verbatimBlock {s : Span} (h : Tiles n t lines) (hstart : n ≤ s.start)
    (hspan : s.start < s.stop) (hstop : s.stop ≤ n + t.size)
    (hverbatim : ∀ l ∈ lines, l.start < s.stop → s.start < l.stop → l.verbatim = true) :
    ∃ block ∈ verbatimBlocks lines, block.start ≤ s.start ∧ s.stop ≤ block.stop := by
  rw [← List.flatten_splitBy (fun k l : Line => k.verbatim == l.verbatim) lines] at h hverbatim
  obtain ⟨g, hg, hall, hinside⟩ := h.exists_group (fun _ => List.ne_nil_of_mem_splitBy)
    (isChain_splitBy verbatim lines) (fun _ hg _ hk _ hl => eq_of_mem_splitBy hg hk hl) hstart hspan
    hstop hverbatim
  refine ⟨passage g, List.mem_map_of_mem (List.mem_filter.mpr ⟨hg, ?_⟩), hinside⟩
  simpa using hall

end Line

namespace Edit

variable {n : Nat} {t : Text} {lines : List Line} {e : Edit}

/-- The range of the edit lies on the line. -/
def Within (line : Line) (e : Edit) : Prop := line.start ≤ e.start ∧ e.stop ≤ line.stop

/-- The edit lies on one of the lines, and on none of code. -/
def OnPlain (lines : List Line) (e : Edit) : Prop :=
  ∃ line ∈ lines, line.verbatim = false ∧ e.Within line

theorem OnPlain.spares (he : e.OnPlain lines) (h : Line.Tiles n t lines) :
    ∀ p ∈ Line.verbatimBlocks lines, e.Spares p := by
  intro p hp
  obtain ⟨line, hline, hplain, hstart, hstop⟩ := he
  obtain ⟨before, block, after, rfl, hne, hverbatim, rfl⟩ := Line.exists_of_mem_verbatimBlocks hp
  obtain ⟨ab, c, rfl, hleft, hafter⟩ := h.exists_append
  obtain ⟨a, b, rfl, hbefore, hblock⟩ := hleft.exists_append
  rw [hblock.passage_eq hne]
  rw [Text.size_append, ← Nat.add_assoc] at hafter
  rcases List.mem_append.mp hline with hline | hline
  · rcases List.mem_append.mp hline with hline | hline
    · exact .inl (hstop.trans (hbefore.bounds hline).2)
    · rw [hverbatim line hline] at hplain
      cases hplain
  · exact .inr ((hafter.bounds hline).1.trans hstart)

/-- An edit behind all verbatim lines spares their blocks. -/
theorem spares_of_behind (h : Line.Tiles n t lines)
    (he : ∀ l ∈ lines, l.verbatim = true → l.stop ≤ e.start) :
    ∀ p ∈ Line.verbatimBlocks lines, e.Spares p := by
  intro p hp
  obtain ⟨before, block, after, rfl, hne, hverbatim, rfl⟩ := Line.exists_of_mem_verbatimBlocks hp
  obtain ⟨ab, c, rfl, hleft, -⟩ := h.exists_append
  obtain ⟨a, b, rfl, -, hblock⟩ := hleft.exists_append
  obtain ⟨last, hlast, hstop⟩ := hblock.exists_stop_eq hne
  have hle := he last (by simp [hlast]) (hverbatim last hlast)
  rw [hstop] at hle
  rw [hblock.passage_eq hne]
  exact .inr hle

end Edit
end Tidymark
