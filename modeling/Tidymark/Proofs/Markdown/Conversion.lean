import Mathlib.Data.List.Forall2
import Tidymark.Parser
import Tidymark.Proofs.Markdown.Parts
import Tidymark.Proofs.Tree.Prose

/-! # From parts to nodes

A library tells where headings and code are, not how they are written. A heading node tells whether
it is underlined, a code node whether it is fenced; both are guessed from the first characters of
the text that the part covers. Where parts cover what is written, the guess is wrong for an
underlined heading whose text starts with a hash, and for indented code whose first line starts like
a fence, and for no other block. -/
namespace Tidymark.Markdown

open Text (isSpaceOrTab)

/-- A heading covers a text that is marked by hashes or underlined. It tells that it is underlined
if it is, unless its text starts with a hash. -/
def HeadingStyle (source : Text) (depth : Nat) (node : Node) : Prop :=
  ∃ t setext, source.slice? node.span.start node.span.stop = some t ∧
    node.data = .heading depth setext ∧ (Marked depth t ∨ Underlined depth t) ∧
    (setext = true ↔ Underlined depth t ∧ (t.dropWhile isSpaceOrTab).head? ≠ some '#')

/-- Code covers a text that is fenced or indented. It tells that it is fenced if it is, or if it
starts with spaces and the marks of a fence. -/
def CodeStyle (source : Text) (lang : Option Text) (node : Node) : Prop :=
  ∃ t fenced, source.slice? node.span.start node.span.stop = some t ∧
    node.data = .code lang fenced ∧ (Fenced t ∨ Indented t) ∧
    (fenced = true ↔ Fenced t ∨ Indented t ∧ Fenced (t.dropWhile (· == ' ')))

/-- A node has the kind, the place and the value of a part; a heading and code have their style. -/
structure Part.Becomes (source : Text) (part : Part) (node : Node) : Prop where
  kind : node.kind = part.kind.nodeKind
  span : node.span = spanOf part.place
  value : node.value = part.kind.value?
  heading : ∀ depth, part.kind = .heading depth → HeadingStyle source depth node
  code : ∀ lang value, part.kind = .code lang value → CodeStyle source lang node

section
variable {source t : Text} {span : Span} {depth start stop : Nat} {kind : PartKind}
variable {place : Option Span} {children : List Part} {inside : List Node} {root : Part}

/-- Below the size limit a place that cuts the source is exact in words. -/
theorem spanOf_eq (hsize : source.size ≤ sizeLimit)
    (hslice : source.slice? span.start span.stop = some t) : spanOf (some span) = span := by
  obtain ⟨a, c, hsource, hstart, hstop⟩ := Text.slice?_eq_some_iff.mp hslice
  have hle : source.size = a.size + t.size + c.size := by
    rw [hsource, Text.size_append, Text.size_append]
  have hlimit : sizeLimit < UInt32.size := by decide
  rw [spanOf, Nat.mod_eq_of_lt (by omega), Nat.mod_eq_of_lt (by omega)]

theorem Part.Covers.exists_text {P : Text → Prop} (hsize : source.size ≤ sizeLimit)
    (h : (Part.mk kind place children).Covers source P) :
    ∃ t, source.slice? (spanOf place).start (spanOf place).stop = some t ∧ P t := by
  obtain ⟨span, t, hplace, hslice, ht⟩ := h
  obtain rfl : place = some span := hplace
  rw [spanOf_eq hsize hslice]
  exact ⟨t, hslice, ht⟩

theorem headingStyle_of_covers {value : Option Text} (hsize : source.size ≤ sizeLimit)
    (h : (Part.mk kind place children).Covers source fun t => Marked depth t ∨ Underlined depth t) :
    ∃ data, (PartKind.heading depth).data? source (spanOf place) = some data ∧
      HeadingStyle source depth (.mk .heading (spanOf place) inside value data) := by
  obtain ⟨t, hslice, hwritten⟩ := h.exists_text hsize
  refine ⟨.heading depth (looksSetext t), by rw [PartKind.data?, hslice]; rfl, t, looksSetext t,
    hslice, rfl, hwritten, ?_⟩
  rcases hwritten with hmarked | hunderlined
  · rw [looksSetext_of_marked hmarked]
    exact iff_of_false Bool.false_ne_true fun hunderlined => hmarked.not_underlined hunderlined.1
  · exact bne_iff_ne.trans (and_iff_right hunderlined).symm

theorem codeStyle_of_covers {lang value : Option Text} {text : Text}
    (hsize : source.size ≤ sizeLimit)
    (h : (Part.mk kind place children).Covers source fun t => Fenced t ∨ Indented t) :
    ∃ data, (PartKind.code lang text).data? source (spanOf place) = some data ∧
      CodeStyle source lang (.mk .code (spanOf place) inside value data) := by
  obtain ⟨t, hslice, hwritten⟩ := h.exists_text hsize
  refine ⟨.code lang (looksFenced t), by rw [PartKind.data?, hslice]; rfl, t, looksFenced t,
    hslice, rfl, hwritten, ?_⟩
  rcases hwritten with hfenced | hindented
  · exact iff_of_true (looksFenced_of_fenced hfenced) (.inl hfenced)
  · refine looksFenced_iff.trans ⟨fun hstart => .inr ⟨hindented, hstart⟩, ?_⟩
    rintro (hfenced | ⟨-, hstart⟩)
    · exact absurd hindented hfenced.not_indented
    · exact hstart

/-- What a node carries can be told of each part that covers what is written. -/
theorem exists_becomes (hsize : source.size ≤ sizeLimit)
    (hwritten : (Part.mk kind place children).Written source) (inside : List Node) :
    ∃ data, kind.data? source (spanOf place) = some data ∧
      (Part.mk kind place children).Becomes source
        (.mk kind.nodeKind (spanOf place) inside kind.value? data) := by
  obtain ⟨hheading, hcode⟩ := hwritten _ (by rw [Part.parts]; exact List.mem_cons_self)
  cases kind with
  | heading depth =>
    obtain ⟨data, hdata, hstyle⟩ := headingStyle_of_covers hsize (hheading depth rfl)
    refine ⟨data, hdata, rfl, rfl, rfl, fun d hd => ?_, fun l v hl => ?_⟩
    · obtain rfl : depth = d := PartKind.heading.inj hd
      exact hstyle
    · cases hl
  | code lang value =>
    obtain ⟨data, hdata, hstyle⟩ := codeStyle_of_covers hsize (hcode lang value rfl)
    refine ⟨data, hdata, rfl, rfl, rfl, fun d hd => ?_, fun l v hl => ?_⟩
    · cases hd
    · obtain ⟨rfl, rfl⟩ : lang = l ∧ value = v := PartKind.code.inj hl
      exact hstyle
  | _ =>
    refine ⟨_, rfl, rfl, rfl, rfl, fun d hd => ?_, fun l v hl => ?_⟩
    · cases hd
    · cases hl

mutual

/-- Each part becomes a node. -/
theorem exists_toNode? (hsize : source.size ≤ sizeLimit) (part : Part)
    (hwritten : part.Written source) : ∃ node, part.toNode? source = some node ∧
      List.Forall₂ (Part.Becomes source) part.parts node.nodes := by
  cases part with
  | mk kind place children =>
    obtain ⟨inside, hinside, hnodes⟩ : ∃ inside,
        (if kind.isParent then Part.toNodes? source children else some []) = some inside ∧
          List.Forall₂ (Part.Becomes source)
            (if kind.isParent then Part.partsAll children else []) (Node.nodesAll inside) := by
      by_cases hparent : kind.isParent = true
      · rw [if_pos hparent, if_pos hparent]
        refine exists_toNodes? hsize children fun child hchild part hpart => hwritten part ?_
        rw [Part.parts, if_pos hparent]
        exact List.mem_cons_of_mem _ (Part.mem_partsAll.mpr ⟨child, hchild, hpart⟩)
      · rw [if_neg hparent, if_neg hparent]
        exact ⟨[], rfl, .nil⟩
    obtain ⟨data, hdata, hbecomes⟩ := exists_becomes hsize hwritten inside
    refine ⟨_, by rw [Part.toNode?, hinside, hdata]; rfl, ?_⟩
    rw [Part.parts, Node.nodes]
    exact .cons hbecomes hnodes

theorem exists_toNodes? (hsize : source.size ≤ sizeLimit) (parts : List Part)
    (hwritten : ∀ part ∈ parts, part.Written source) :
    ∃ nodes, Part.toNodes? source parts = some nodes ∧
      List.Forall₂ (Part.Becomes source) (Part.partsAll parts) (Node.nodesAll nodes) := by
  cases parts with
  | nil => exact ⟨[], rfl, .nil⟩
  | cons part rest =>
    obtain ⟨hpart, hrest⟩ := List.forall_mem_cons.mp hwritten
    obtain ⟨node, hnode, hbecomes⟩ := exists_toNode? hsize part hpart
    obtain ⟨nodes, hnodes, hothers⟩ := exists_toNodes? hsize rest hrest
    refine ⟨node :: nodes, by rw [Part.toNodes?, hnode, hnodes]; rfl, ?_⟩
    rw [Part.partsAll, Node.nodesAll]
    exact List.rel_append hbecomes hothers

end

theorem readWith_of_toNode? {library : Library} {tree : Node} (hsize : source.size ≤ sizeLimit)
    (hroot : library source = .ok root) (htree : root.toNode? source = some tree) :
    readWith library source = .ok tree := by
  rw [readWith, if_neg (Nat.not_lt.mpr hsize), hroot]
  simp only [htree]

/-- What a library tells of a document becomes a tree, part by part. If it tells where headings and
code are written, each heading node tells of the text that it covers whether it is underlined, but
for underlined ones that start with a hash; and each code node tells whether it is fenced, but for
indented ones whose first line starts like a fence behind spaces. -/
theorem readWith_styled {library : Library} (hsize : source.size ≤ sizeLimit)
    (hroot : library source = .ok root) (hwritten : root.Written source) :
    ∃ tree, readWith library source = .ok tree ∧
      List.Forall₂ (Part.Becomes source) root.parts tree.nodes := by
  obtain ⟨tree, htree, hbecomes⟩ := exists_toNode? hsize root hwritten
  exact ⟨tree, readWith_of_toNode? hsize hroot htree, hbecomes⟩

/-- An underlined heading and indented code, as they are told. -/
theorem readWith_styled_underline :
    let source : Text := ['a', '\n', '-', '\n', '\n', ' ', ' ', ' ', ' ', 'b', '\n']
    let heading : Part := .branch (.heading 2) ⟨0, 3⟩ [.leaf (.text ['a']) ⟨0, 1⟩]
    let code : Part := .leaf (.code none ['b']) ⟨5, 10⟩
    let root : Part := .branch .root ⟨0, 11⟩ [heading, code]
    let tree : Node := .branch .root ⟨0, 11⟩
      [.branch .heading ⟨0, 3⟩ [.literal .text ⟨0, 1⟩ ['a']] (.heading 2 true),
        .literal .code ⟨5, 10⟩ ['b'] (.code none false)]
    library source = .ok root ∧ root.Written source ∧ readWith library source = .ok tree ∧
      List.Forall₂ (Part.Becomes source) [root, heading, .leaf (.text ['a']) ⟨0, 1⟩, code]
        tree.nodes := by
  intro source heading code root tree
  have hroot : library source = .ok root := rfl
  have hwritten : root.Written source := written_document source
  have hread : readWith library source = .ok tree :=
    readWith_of_toNode? (by decide) hroot rfl
  obtain ⟨found, hfound, hbecomes⟩ := readWith_styled (by decide) hroot hwritten
  obtain rfl : tree = found := Except.ok.inj (hread.symm.trans hfound)
  exact ⟨hroot, hwritten, hread, hbecomes⟩

/-- A hash that starts underlined text, and a fence in indented code, are taken for the marks of a
heading and of fenced code. -/
theorem readWith_hash_underlined :
    let source : Text := ['#', 't', 'a', 'g', '\n', '=', '=', '=', '\n', '\n',
      ' ', ' ', ' ', ' ', '`', '`', '`', '\n']
    let heading : Text := ['#', 't', 'a', 'g', '\n', '=', '=', '=']
    let code : Text := [' ', ' ', ' ', ' ', '`', '`', '`']
    library source = .ok (.branch .root ⟨0, 18⟩
        [.branch (.heading 1) ⟨0, 8⟩ [.leaf (.text ['#', 't', 'a', 'g']) ⟨0, 4⟩],
          .leaf (.code none ['`', '`', '`']) ⟨10, 17⟩]) ∧
      source.slice? 0 8 = some heading ∧ Underlined 1 heading ∧ ¬ Marked 1 heading ∧
      source.slice? 10 17 = some code ∧ Indented code ∧ ¬ Fenced code ∧
      readWith library source = .ok (.branch .root ⟨0, 18⟩
        [.branch .heading ⟨0, 8⟩ [.literal .text ⟨0, 4⟩ ['#', 't', 'a', 'g']] (.heading 1 false),
          .literal .code ⟨10, 17⟩ ['`', '`', '`'] (.code none true)]) := by
  intro source heading code
  have hroot : library source = .ok (.branch .root ⟨0, 18⟩
      [.branch (.heading 1) ⟨0, 8⟩ [.leaf (.text ['#', 't', 'a', 'g']) ⟨0, 4⟩],
        .leaf (.code none ['`', '`', '`']) ⟨10, 17⟩]) := rfl
  have hunderline : Underline 1 ['=', '=', '='] :=
    ⟨['=', '=', '='], [], rfl, by simp, .inl ⟨rfl, by simp⟩, by simp⟩
  have hunderlined : Underlined 1 heading :=
    ⟨['#', 't', 'a', 'g', '\n'], _, rfl, ⟨'\n', by decide, rfl⟩, hunderline⟩
  have hindented : Indented code := ⟨' ', rfl, rfl⟩
  exact ⟨hroot, rfl, hunderlined, fun hmarked => hmarked.not_underlined hunderlined, rfl, hindented,
    fun hfenced => hfenced.not_indented hindented,
    readWith_of_toNode? (by decide) hroot rfl⟩

/-- Below the size limit every text has a tree. -/
theorem read_eq_ok_iff {root : Node} :
    read source = .ok root ↔ source.size ≤ sizeLimit ∧ parse source = root := by
  by_cases hsize : source.size ≤ sizeLimit
  · obtain ⟨tree, htree, -⟩ := exists_toNode? hsize (document source) (written_document source)
    have hread : read source = .ok tree := readWith_of_toNode? hsize rfl htree
    have hparse : parse source = tree := by rw [parse, htree, Option.getD_some]
    rw [hread, hparse, Except.ok.injEq]
    exact (and_iff_right hsize).symm
  · rw [read, readWith, if_pos (Nat.not_le.mp hsize)]
    exact iff_of_false (fun hread => nomatch hread) fun h => hsize h.1

end
end Tidymark.Markdown
