import Tidymark.Markdown
import Tidymark.Proofs.Markdown.Document
import Tidymark.Proofs.Markdown.Phrases

/-! # The headings and the code of a document

Headings and code cover the text of the blocks that they come from. So the parts of a document tell
where its headings and its code are written, and how is to be seen there. -/
namespace Tidymark.Markdown

/-- A part covers a text of the source that has a property. -/
def Part.Covers (source : Text) (P : Text → Prop) (part : Part) : Prop :=
  ∃ span t, part.place = some span ∧ source.slice? span.start span.stop = some t ∧ P t

/-- Headings and code are where they are written: each heading covers a text that is marked by as
many hashes as its depth tells, or underlined, and all code a text that is fenced or indented. -/
def Part.Written (source : Text) (root : Part) : Prop :=
  ∀ part ∈ root.parts,
    (∀ depth, part.kind = .heading depth →
      part.Covers source fun t => Marked depth t ∨ Underlined depth t) ∧
    ∀ lang value, part.kind = .code lang value →
      part.Covers source fun t => Fenced t ∨ Indented t

section
variable {source u t front : Text} {start stop depth : Nat} {span : Span} {P : Text → Prop}
variable {kind : PartKind} {place : Option Span} {children : List Part} {part : Part}

theorem written_mk (h : ∀ depth, kind ≠ .heading depth)
    (hcode : ∀ lang value, kind ≠ .code lang value)
    (hchildren : ∀ p ∈ children, p.Written source) : (Part.mk kind place children).Written source :=
  Part.forall_mem_parts ⟨fun depth hkind => absurd hkind (h depth),
    fun lang value hkind => absurd hkind (hcode lang value)⟩ fun _ => hchildren

theorem written_of_isPhrase (h : part.IsPhrase) : part.Written source := by
  intro p hp
  have hblock := h p hp
  constructor
  · intro depth hkind
    rw [hkind] at hblock
    cases hblock
  · intro lang value hkind
    rw [hkind] at hblock
    cases hblock

theorem written_phrases (s : Surroundings) (atStart : Bool) (cells : List Cell) :
    ∀ p ∈ phrases s atStart cells, p.Written source :=
  fun p hp => written_of_isPhrase (isPhrase_phrases s atStart cells p hp)

theorem written_heading (hchildren : ∀ p ∈ children, p.Written source)
    (h : (Part.branch (.heading depth) span children).Covers source
      fun t => Marked depth t ∨ Underlined depth t) :
    (Part.branch (.heading depth) span children).Written source := by
  refine Part.forall_mem_parts ⟨fun d hkind => ?_, nofun⟩ fun _ => hchildren
  obtain rfl : depth = d := PartKind.heading.inj hkind
  exact h

theorem written_code {lang : Option Text} {value : Text}
    (h : (Part.leaf (.code lang value) span).Covers source fun t => Fenced t ∨ Indented t) :
    (Part.leaf (.code lang value) span).Written source :=
  Part.forall_mem_parts ⟨nofun, fun _ _ _ => h⟩ nofun

/-- What stands at some offsets is cut out there. -/
theorem slice?_of_shows (hsource : source = front ++ u) (h : Shows front.size u start stop t) :
    source.slice? start stop = some t := by
  obtain ⟨x, y, rfl, rfl, rfl⟩ := h
  exact Text.slice?_eq_some_iff.mpr ⟨front ++ x, y, by simpa using hsource, Text.size_append ..,
    by rw [Text.size_append]⟩

theorem covers_of_holds (hsource : source = front ++ u)
    (h : Holds front.size u span.start span.stop P) :
    (Part.mk kind (some span) children).Covers source P := by
  obtain ⟨t, hshows, ht⟩ := h
  exact ⟨span, t, rfl, slice?_of_shows hsource hshows, ht⟩

end

/-- What is known while the blocks of a container become parts: the headings and the code so far are
where they are written, and prose that may still grow starts in one of the blocks. -/
structure Assembly.Written (source : Text) (earlier : List Block) (a : Assembly) : Prop where
  parts : ∀ p ∈ a.parts, p.Written source
  list : ∀ run ∈ a.list, ∀ p ∈ run.items, p.Written source
  prose : ∀ prose ∈ a.prose, ∃ b ∈ earlier, prose.span.start ∈ b.starts

namespace Assembly

variable {source : Text} {s : Surroundings} {a : Assembly} {block : Block} {earlier : List Block}
variable {part : Part} {prose : Prose} {rows : List Row} {row : Row} {depth : Nat}

theorem Written.mono (h : a.Written source earlier) : a.Written source (block :: earlier) where
  parts := h.parts
  list := h.list
  prose prose hprose :=
    let ⟨b, hb, hstart⟩ := h.prose prose hprose
    ⟨b, List.mem_cons_of_mem block hb, hstart⟩

theorem Written.add (h : a.Written source earlier) (hpart : part.Written source) :
    (a.add part).Written source earlier where
  parts := List.forall_mem_cons.mpr ⟨hpart, h.parts⟩
  list := h.list
  prose := h.prose

/-- A paragraph that starts with a task holds nothing but text. -/
theorem written_taskParagraph {span : Span} {children : List Part}
    (h : ∀ p ∈ children, p.IsPhrase) : (taskParagraph span children).Written source := by
  unfold taskParagraph
  split
  · obtain ⟨-, hrest⟩ := List.forall_mem_cons.mp h
    refine written_mk nofun nofun fun p hp => written_of_isPhrase ?_
    split at hp
    · exact hrest p hp
    · rcases List.mem_cons.mp hp with rfl | hp
      · exact Part.isPhrase_leaf rfl
      · exact hrest p hp
  · exact written_mk nofun nofun fun p hp => written_of_isPhrase (h p hp)

theorem written_paragraph : (a.paragraph s prose).Written source := by
  unfold paragraph
  split
  · simp only
    split
    · exact written_taskParagraph (isPhrase_phrases _ _ _)
    · exact written_mk nofun nofun (written_phrases _ _ _)
  · exact written_mk nofun nofun (written_phrases _ _ _)

theorem Written.endProse (h : a.Written source earlier) :
    (a.endProse s).Written source earlier := by
  unfold Assembly.endProse
  split
  · exact Written.add ⟨h.parts, h.list, nofun⟩ written_paragraph
  · exact h

theorem Written.endList (h : a.Written source earlier) : a.endList.Written source earlier := by
  unfold Assembly.endList
  split
  · rename_i run hrun
    refine Written.add ⟨h.parts, nofun, h.prose⟩ (written_mk nofun nofun fun p hp => ?_)
    exact h.list run hrun p (List.mem_reverse.mp hp)
  · exact h

theorem Written.settle (h : a.Written source earlier) : (a.settle s).Written source earlier :=
  h.endProse.endList

/-- The parts of a container whose blocks are all placed. -/
theorem Written.inside (h : a.Written source earlier) :
    ∀ p ∈ (a.settle s).parts.reverse, p.Written source :=
  fun p hp => h.settle.parts p (List.mem_reverse.mp hp)

/-- A part that nothing may go on with. -/
theorem Written.place (h : a.Written source earlier) (hpart : part.Written source) :
    ((a.settle s).add part).Written source (block :: earlier) :=
  (h.settle.add hpart).mono

theorem Written.blank (h : a.Written source earlier) : (a.blank s).Written source earlier := by
  refine ⟨h.endProse.parts, fun run hrun => ?_, h.endProse.prose⟩
  obtain ⟨kept, hkept, rfl⟩ := Option.map_eq_some_iff.mp hrun
  split
  · exact h.endProse.list kept hkept
  · exact h.endProse.list kept hkept

/-- The cells of joined rows start where cells of the rows do. -/
theorem start_mem_of_mem_joinRows {c : Cell} (h : c ∈ joinRows rows) :
    c.start ∈ (Block.content rows).starts := by
  rw [Block.starts, List.mem_flatMap]
  fun_induction joinRows rows with
  | case1 => cases h
  | case2 row =>
    exact ⟨row, List.mem_cons_self, List.mem_map_of_mem (List.mem_append_left _ h)⟩
  | case3 row rest hrest ih =>
    rcases List.mem_append.mp h with h | h
    · exact ⟨row, List.mem_cons_self, List.mem_map_of_mem h⟩
    · obtain ⟨other, hother, hstart⟩ := ih h
      exact ⟨other, List.mem_cons_of_mem row hother, hstart⟩

/-- Cells start with their first one. -/
theorem start_mem (stop : Nat) {cells : List Cell} (h : cells ≠ []) :
    ∃ c ∈ cells, Cells.start stop cells = c.start := by
  cases cells with
  | nil => exact absurd rfl h
  | cons c cells => exact ⟨c, List.mem_cons_self, rfl⟩

theorem Written.define (h : a.Written source earlier) (definitions : List LinkDefinition) :
    (definitions.foldl (fun a d => a.add (.leaf (.definition d.url d.title) d.span))
      a).Written source earlier := by
  induction definitions generalizing a with
  | nil => exact h
  | cons d rest ih => exact ih (h.add (written_mk nofun nofun nofun))

/-- Lines of text go on with prose above them, or start prose behind their definitions. -/
theorem Written.content (h : a.Written source earlier) :
    (a.content s rows).Written source (.content rows :: earlier) := by
  unfold Assembly.content
  simp only
  split
  · rename_i joined hjoined
    refine ⟨h.parts, h.list, fun prose hprose => ?_⟩
    obtain rfl := Option.some.inj hprose
    obtain ⟨before, hbefore, hjoined⟩ := Option.bind_eq_some_iff.mp hjoined
    obtain ⟨ending, -, hjoined⟩ := Option.bind_eq_some_iff.mp hjoined
    obtain ⟨first, -, hjoined⟩ := Option.bind_eq_some_iff.mp hjoined
    obtain ⟨-, hjoined⟩ := Option.ite_none_right_eq_some.mp hjoined
    obtain rfl := Option.some.inj hjoined
    exact h.mono.prose before hbefore
  · refine ⟨(h.settle.define _).parts, (h.settle.define _).list, fun prose hprose => ?_⟩
    obtain ⟨hrest, hprose⟩ := Option.ite_none_left_eq_some.mp hprose
    obtain rfl := Option.some.inj hprose
    obtain ⟨c, hc, hstart⟩ := start_mem _ (mt List.isEmpty_iff.mpr hrest)
    have hcell := (LinkDefinition.readAll_suffix _ _ _ _).subset hc
    exact ⟨_, List.mem_cons_self, hstart ▸ start_mem_of_mem_joinRows hcell⟩

/-- An item joins the list before it or starts another. -/
theorem Written.item {span : Span} {marker : Char} {number : Option Nat} {bare : Bool}
    {children : List Part} (h : a.Written source earlier)
    (hchildren : ∀ p ∈ children, p.Written source) :
    (a.item span marker number bare children s).Written source earlier := by
  have hitem : (Part.branch .listItem span children).Written source :=
    written_mk nofun nofun hchildren
  have hfresh : ∀ p ∈ [Part.branch .listItem span children], p.Written source :=
    List.forall_mem_singleton.mpr hitem
  have hended := h.endProse (s := s)
  unfold Assembly.item
  simp only
  split
  · rename_i run hrun
    split
    · refine ⟨hended.parts, fun kept hkept => ?_, hended.prose⟩
      obtain rfl := Option.some.inj hkept
      exact List.forall_mem_cons.mpr ⟨hitem, hended.list run hrun⟩
    · refine ⟨hended.endList.parts, fun kept hkept => ?_, hended.endList.prose⟩
      obtain rfl := Option.some.inj hkept
      exact hfresh
  · refine ⟨hended.parts, fun kept hkept => ?_, hended.prose⟩
    obtain rfl := Option.some.inj hkept
    exact hfresh

end Assembly

theorem written_tablePart {source : Text} (s : Surroundings) (span : Span) (rows : List TableRow) :
    (tablePart s span rows).Written source := by
  refine written_mk nofun nofun fun row hrow => ?_
  obtain ⟨r, -, rfl⟩ := List.mem_map.mp hrow
  refine written_mk nofun nofun fun cell hcell => ?_
  obtain ⟨c, -, rfl⟩ := List.mem_map.mp hcell
  exact written_mk nofun nofun (written_phrases _ _ _)

section
variable {s : Surroundings} {front u : Text} {depth : Nat} {row : Row} {span : Span}
variable {a : Assembly} {block : Block} {blocks earlier : List Block} {children : List Node}

/-- Of prose and the line that underlines it, the last line underlines the others. -/
theorem Underlines.underlined (h : Underlines front.size u depth row earlier) {n : Nat}
    (hblock : block ∈ earlier) (hn : n ∈ block.starts) :
    Holds front.size u n row.stop (Underlined depth) := by
  obtain ⟨above, lead, body, rest, rfl, hfresh, hstop, hunderline, hearlier⟩ := h
  obtain ⟨x, y, rfl, hy, rfl⟩ := hearlier block hblock n hn
  have hshows : Shows front.size (x ++ y ++ lead ++ body ++ rest) (front.size + Text.size x)
      row.stop (y ++ lead ++ body) := by
    refine ⟨x, rest, by simp, rfl, ?_⟩
    rw [hstop]
    simp only [Text.size_append]
    omega
  refine ⟨_, hshows, y ++ lead, body, rfl, ⟨y.getLast hy, by simp, hfresh _ ?_⟩, hunderline⟩
  rw [List.getLast?_append_of_ne_nil _ hy, List.getLast?_eq_getLast_of_ne_nil hy]
  rfl

/-- A line underlines the prose above it; without any, it is prose itself. -/
theorem Assembly.Written.underline (h : a.Written s.source earlier)
    (hline : Underlines front.size u depth row earlier) (hsource : s.source = front ++ u)
    (hne : row.cells ≠ []) :
    (a.underline s depth row).Written s.source (.underline depth row :: earlier) := by
  unfold Assembly.underline
  simp only
  split
  · rename_i prose hprose
    obtain ⟨b, hb, hstart⟩ := h.prose prose hprose
    refine Assembly.Written.add ⟨h.parts, h.list, nofun⟩
      (written_heading (written_phrases _ _ _) (covers_of_holds hsource ?_))
    exact (hline.underlined hb hstart).imp fun _ => .inr
  · refine ⟨h.endList.parts, h.endList.list, fun prose hprose => ?_⟩
    obtain rfl := Option.some.inj hprose
    obtain ⟨c, hc, hstart⟩ := Assembly.start_mem row.stop hne
    exact ⟨_, List.mem_cons_self, hstart ▸ List.mem_map_of_mem (List.mem_append_left _ hc)⟩

theorem Placed.of_append {p : Nat} (h : Placed p u (blocks ++ earlier)) : Placed p u earlier := by
  induction blocks with
  | nil => exact h
  | cons b blocks ih => exact ih (by cases h <;> assumption)

/-- A container starts without parts. -/
theorem Assembly.written_new {source : Text} {startsItem : Bool} :
    (⟨startsItem, [], none, none⟩ : Assembly).Written source [] :=
  ⟨List.forall_mem_nil _, nofun, nofun⟩

mutual

/-- A block that stands where it tells keeps up what is known. -/
theorem written_assemble (hsource : s.source = front ++ u) (block : Block) (earlier : List Block)
    (a : Assembly) (hplaced : Placed front.size u (block :: earlier))
    (h : a.Written s.source earlier) :
    (block.assemble s a).Written s.source (block :: earlier) := by
  cases block with
  | blank => exact h.blank.mono
  | content rows => exact h.content
  | underline depth row =>
    cases hplaced with
    | plain hplain => cases hplain
    | underline hne _ hline _ => exact h.underline hline hsource hne
  | heading depth span text =>
    cases hplaced with
    | plain hplain => cases hplain
    | heading hheld _ =>
      have hheld := hheld.imp fun t (ht : Marked depth t) => Or.inl (b := Underlined depth t) ht
      exact h.place (written_heading (written_phrases _ _ _) (covers_of_holds hsource hheld))
  | rule span => exact h.place (written_mk nofun nofun nofun)
  | code span info value =>
    cases hplaced with
    | plain hplain => cases hplain
    | code hheld _ => exact h.place (written_code (covers_of_holds hsource hheld))
  | html span value => exact h.place (written_mk nofun nofun nofun)
  | table span rows => exact h.place (written_tablePart s span rows)
  | quote span bare children =>
    cases hplaced with
    | plain hplain => cases hplain
    | quote hinside _ =>
      have hchildren := written_assembleAll hsource children [] ⟨false, [], none, none⟩
        (by rwa [List.append_nil]) Assembly.written_new
      exact h.place (written_mk nofun nofun hchildren.inside)
  | item span marker number children =>
    cases hplaced with
    | plain hplain => cases hplain
    | item hinside _ =>
      have hchildren := written_assembleAll hsource children [] ⟨true, [], none, none⟩
        (by rwa [List.append_nil]) Assembly.written_new
      exact (h.item hchildren.inside).mono
  | footnote span label children =>
    cases hplaced with
    | plain hplain => cases hplain
    | footnote hinside _ =>
      have hchildren := written_assembleAll hsource children [] ⟨false, [], none, none⟩
        (by rwa [List.append_nil]) Assembly.written_new
      exact h.place (written_mk nofun nofun hchildren.inside)

theorem written_assembleAll (hsource : s.source = front ++ u) (blocks earlier : List Block)
    (a : Assembly) (hplaced : Placed front.size u (blocks.reverse ++ earlier))
    (h : a.Written s.source earlier) :
    (assembleAll s a blocks).Written s.source (blocks.reverse ++ earlier) := by
  cases blocks with
  | nil => exact h
  | cons block rest =>
    rw [List.reverse_cons, List.append_assoc, List.singleton_append] at hplaced ⊢
    exact written_assembleAll hsource rest (block :: earlier) _ hplaced
      (written_assemble hsource block earlier a hplaced.of_append h)

end

end

section
variable {rows inside rest : List Row} {fence : Row} {marker : Char} {part : Part}

theorem splitAtFence_suffix (h : splitAtFence marker rows = some (inside, fence, rest)) :
    rest <:+ rows := by
  induction rows generalizing inside with
  | nil => cases h
  | cons row rows ih =>
    rw [splitAtFence] at h
    split at h
    · obtain ⟨-, -, rfl⟩ := Option.some.inj h
      exact List.suffix_cons _ _
    · obtain ⟨⟨before, found⟩, hfound, heq⟩ := Option.map_eq_some_iff.mp h
      obtain ⟨-, rfl⟩ := Prod.mk.inj heq
      exact (ih hfound).trans (List.suffix_cons row rows)

/-- Front matter is no heading and no code, and leaves the end of the document. -/
theorem frontMatter?_spec {source : Text} (h : frontMatter? rows = some (part, rest)) :
    part.Written source ∧ rest <:+ rows := by
  cases rows with
  | nil => cases h
  | cons row rows =>
    obtain ⟨marker, -, h⟩ := Option.bind_eq_some_iff.mp h
    obtain ⟨ending, -, h⟩ := Option.bind_eq_some_iff.mp h
    obtain ⟨⟨inside, fence, behind⟩, hfence, h⟩ := Option.bind_eq_some_iff.mp h
    obtain ⟨rfl, rfl⟩ := Prod.mk.inj (Option.some.inj h)
    refine ⟨?_, (splitAtFence_suffix hfence).trans (List.suffix_cons row rows)⟩
    split
    · exact written_mk nofun nofun nofun
    · exact written_mk nofun nofun nofun

/-- The blocks behind any lines of a document stand in its text. -/
theorem exists_placed_ofRows {source : Text} (h : rest <:+ rowsOf source) :
    ∃ front u : Text, source = front ++ u ∧ Placed front.size u (Outline.ofRows rest).reverse := by
  obtain ⟨mark, text, hsource, hlays⟩ := exists_lays_rowsOf source
  obtain ⟨before, u, rfl, hrest⟩ := hlays.suffix h
  refine ⟨mark ++ before, u, by simpa using hsource, ?_⟩
  rw [Text.size_append]
  exact placed_ofRows hrest

/-- The library at hand tells where headings and code are written. -/
theorem written_document (source : Text) : (document source).Written source := by
  have hparts : ∀ (front : List Part) (rows : List Row) (s : Surroundings), s.source = source →
      (∀ p ∈ front, p.Written source) → rows <:+ rowsOf source →
      (Part.branch .root ⟨0, source.size⟩ (front ++
        ((assembleAll s ⟨false, [], none, none⟩
          (Outline.ofRows rows)).settle s).parts.reverse)).Written source := by
    rintro front rows s rfl hfront hrows
    obtain ⟨before, u, hsource, hplaced⟩ := exists_placed_ofRows hrows
    have hall := written_assembleAll hsource (Outline.ofRows rows) [] ⟨false, [], none, none⟩
      (by rwa [List.append_nil]) Assembly.written_new
    exact written_mk nofun nofun (List.forall_mem_append.mpr ⟨hfront, hall.inside⟩)
  unfold document
  simp only
  split
  · rename_i part rest hfront
    obtain ⟨hpart, hrest⟩ := frontMatter?_spec hfront
    exact hparts [part] rest _ rfl (List.forall_mem_singleton.mpr hpart) hrest
  · exact hparts [] _ _ rfl (List.forall_mem_nil _) List.suffix_rfl

end
end Tidymark.Markdown
