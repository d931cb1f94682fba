import Tidymark.Markdown.Phrase.Parts

/-! # What text becomes

Text becomes parts that stand within a block: emphasis, links, code spans and the like. However its
pieces are matched and put together, no part of text is a block of its own, and none holds one. -/
namespace Tidymark.Markdown

mutual

/-- A part and all that become nodes below its own, in source order. -/
def Part.parts : Part → List Part
  | .mk kind place children =>
    .mk kind place children :: if kind.isParent then Part.partsAll children else []

def Part.partsAll : List Part → List Part
  | [] => []
  | part :: rest => part.parts ++ Part.partsAll rest

end

/-- Neither the part nor any below it is a block of its own. -/
def Part.IsPhrase (part : Part) : Prop := ∀ p ∈ part.parts, p.kind.nodeKind.isBlock = false

namespace Part

variable {kind : PartKind} {place : Option Span} {children parts : List Part} {part : Part}

theorem mem_partsAll : part ∈ partsAll parts ↔ ∃ p ∈ parts, part ∈ p.parts := by
  induction parts with
  | nil => simp [partsAll]
  | cons p rest ih => simp [partsAll, ih]

theorem forall_mem_parts {P : Part → Prop} (h : P (mk kind place children))
    (hchildren : kind.isParent = true → ∀ child ∈ children, ∀ p ∈ child.parts, P p) :
    ∀ p ∈ (mk kind place children).parts, P p := by
  rw [parts]
  refine List.forall_mem_cons.mpr ⟨h, fun p hp => ?_⟩
  split at hp
  · rename_i hparent
    obtain ⟨child, hchild, hp⟩ := mem_partsAll.mp hp
    exact hchildren hparent child hchild p hp
  · cases hp

theorem isPhrase_mk (h : kind.nodeKind.isBlock = false) (hchildren : ∀ p ∈ children, p.IsPhrase) :
    (mk kind place children).IsPhrase :=
  forall_mem_parts h fun _ => hchildren

theorem isPhrase_leaf {span : Span} (h : kind.nodeKind.isBlock = false) :
    (leaf kind span).IsPhrase :=
  isPhrase_mk h (List.forall_mem_nil _)

end Part

/-- All parts that a piece holds stand within a block. -/
inductive Piece.IsPhrase : Piece → Prop
  | plain (cells : List Cell) : IsPhrase (.plain cells)
  | ending (cell : Cell) : IsPhrase (.ending cell)
  | literal (span : Span) (value : Text) : IsPhrase (.literal span value)
  | part {part : Part} (h : part.IsPhrase) : IsPhrase (.part part)
  | hardBreak (start : Nat) : IsPhrase (.hardBreak start)
  | delimiters (run : Delimiters) : IsPhrase (.delimiters run)
  | group {kind : PartKind} {span : Span} {children : List Piece}
      (hkind : kind.nodeKind.isBlock = false) (hchildren : ∀ piece ∈ children, IsPhrase piece) :
      IsPhrase (.group kind span children)

section
variable {part : Part} {parts : List Part} {start stop : Nat} {value : Text} {cells : List Cell}

theorem isPhrase_joinText (hpart : part.IsPhrase) (hparts : ∀ p ∈ parts, p.IsPhrase) :
    ∀ p ∈ joinText part parts, p.IsPhrase := by
  unfold joinText
  split
  · obtain ⟨-, hothers⟩ := List.forall_mem_cons.mp hparts
    refine List.forall_mem_cons.mpr ⟨?_, hothers⟩
    exact Part.forall_mem_parts rfl nofun
  · exact List.forall_mem_cons.mpr ⟨hpart, hparts⟩

theorem isPhrase_inOrder (hparts : ∀ p ∈ parts, p.IsPhrase) : ∀ p ∈ inOrder parts, p.IsPhrase :=
  List.foldlRecOn parts _ (motive := fun rest => ∀ p : Part, p ∈ rest → p.IsPhrase) (by simp)
    fun _ hrest p hp => isPhrase_joinText (hparts p hp) hrest

theorem isPhrase_addText (hparts : ∀ p ∈ parts, p.IsPhrase) :
    ∀ p ∈ addText start stop value parts, p.IsPhrase :=
  List.forall_mem_cons.mpr ⟨Part.isPhrase_leaf rfl, hparts⟩

theorem isPhrase_addPlain (hparts : ∀ p ∈ parts, p.IsPhrase) :
    ∀ p ∈ addPlain cells parts, p.IsPhrase := by
  unfold addPlain
  split
  · exact isPhrase_addText hparts
  · exact hparts

end

namespace Autolink

variable {cells behind front before : List Cell} {found : Part} {sign : Cell}

theorem isPhrase_link (span inner : Span) (url text : Text) : (link span inner url text).IsPhrase :=
  Part.isPhrase_mk rfl (List.forall_mem_singleton.mpr (Part.isPhrase_leaf rfl))

theorem isPhrase_bracketed? (h : bracketed? cells = some (found, behind)) : found.IsPhrase := by
  simp only [bracketed?, Option.bind_eq_bind, Option.bind_eq_some_iff] at h
  obtain ⟨first, -, inside, -, h⟩ := h
  split at h
  · obtain ⟨rfl, -⟩ := Prod.mk.inj (Option.some.inj h)
    exact isPhrase_link _ _ _ _
  · obtain ⟨address, -, h⟩ := Option.bind_eq_some_iff.mp h
    obtain ⟨rfl, -⟩ := Prod.mk.inj (Option.some.inj h)
    exact isPhrase_link _ _ _ _

theorem isPhrase_bare? {close : CharClass} {previous : Option Char} {stop : Nat}
    (h : bare? close previous stop cells = some (found, behind)) : found.IsPhrase := by
  simp only [bare?, Option.bind_eq_bind, Option.bind_eq_some_iff] at h
  obtain ⟨first, -, h⟩ := h
  have hlink : ∀ (rest? : Option (List Cell × String)), (rest?.bind fun x =>
      some (link ⟨first.start, Cells.start stop x.1⟩ ⟨first.start, Cells.start stop x.1⟩
        (x.2.toList ++ Cells.raw (Cells.before cells x.1)) (Cells.raw (Cells.before cells x.1)),
        x.1)) = some (found, behind) → found.IsPhrase := by
    intro rest? h
    obtain ⟨rest, -, h⟩ := Option.bind_eq_some_iff.mp h
    obtain ⟨rfl, -⟩ := Prod.mk.inj (Option.some.inj h)
    exact isPhrase_link _ _ _ _
  split at h
  · split at h
    · exact hlink _ h
    · obtain ⟨rest, -, h⟩ := Option.bind_eq_some_iff.mp h
      exact hlink _ h
  · split at h
    · exact hlink _ h
    · obtain ⟨rest, -, h⟩ := Option.bind_eq_some_iff.mp h
      split at h
      · exact hlink _ h
      · exact hlink _ h

theorem isPhrase_mailAround? (h : mailAround? before sign cells = some (front, found, behind)) :
    found.IsPhrase := by
  obtain ⟨-, h⟩ := Option.ite_none_left_eq_some.mp h
  obtain ⟨last, -, h⟩ := Option.bind_eq_some_iff.mp h
  obtain ⟨-, h⟩ := Option.ite_none_right_eq_some.mp h
  obtain ⟨first, -, h⟩ := Option.bind_eq_some_iff.mp h
  obtain ⟨-, hrest⟩ := Prod.mk.inj (Option.some.inj h)
  obtain ⟨rfl, -⟩ := Prod.mk.inj hrest
  exact isPhrase_link _ _ _ _

theorem isPhrase_splitMails (fuel : Nat) (before cells : List Cell) :
    ∀ piece ∈ splitMails fuel before cells, piece.IsPhrase := by
  fun_induction splitMails fuel before cells with
  | case1 before cells => exact List.forall_mem_singleton.mpr (.plain _)
  | case2 => exact List.forall_mem_nil _
  | case3 => exact List.forall_mem_singleton.mpr (.plain _)
  | case4 before fuel c cells hsign front found behind haround ih =>
    refine List.forall_mem_append.mpr ⟨?_, ?_⟩
    · split
      · exact List.forall_mem_nil _
      · exact List.forall_mem_singleton.mpr (.plain _)
    · exact List.forall_mem_cons.mpr ⟨.part (isPhrase_mailAround? haround), ih⟩
  | case5 before fuel c cells hsign haround ih => exact ih
  | case6 before fuel c cells hsign ih => exact ih

end Autolink

namespace Piece

variable {piece : Piece} {pieces rest inner before : List Piece} {parts : List Part}
variable {cells : List Cell}

mutual

/-- The part of a piece is no block. -/
theorem isPhrase_addTo (inLink : Bool) (parts : List Part) (hparts : ∀ p ∈ parts, p.IsPhrase)
    (piece : Piece) (hpiece : piece.IsPhrase) : ∀ p ∈ piece.addTo inLink parts, p.IsPhrase := by
  cases piece with
  | plain cells =>
    rw [addTo]
    split
    · exact isPhrase_addPlain hparts
    · refine List.foldlRecOn _ _ (motive := fun parts => ∀ p : Part, p ∈ parts → p.IsPhrase) hparts
        fun parts hparts piece hpiece => ?_
      have hfound := Autolink.isPhrase_splitMails _ _ _ piece hpiece
      split
      · exact isPhrase_addPlain hparts
      · cases hfound with
        | part hfound => exact List.forall_mem_cons.mpr ⟨hfound, hparts⟩
      · exact hparts
  | ending cell => exact isPhrase_addText hparts
  | literal span value => exact isPhrase_addText hparts
  | part found =>
    cases hpiece with
    | part hfound => exact List.forall_mem_cons.mpr ⟨hfound, hparts⟩
  | hardBreak start => exact List.forall_mem_cons.mpr ⟨Part.isPhrase_leaf rfl, hparts⟩
  | delimiters run => exact isPhrase_addPlain hparts
  | group kind span children =>
    cases hpiece with
    | group hkind hchildren =>
      have hinside := isPhrase_inOrder (isPhrase_addAll (inLink || kind.isLink) []
        (List.forall_mem_nil _) children hchildren)
      rw [addTo]
      exact List.forall_mem_cons.mpr ⟨Part.isPhrase_mk hkind hinside, hparts⟩

theorem isPhrase_addAll (inLink : Bool) (parts : List Part) (hparts : ∀ p ∈ parts, p.IsPhrase)
    (pieces : List Piece) (hpieces : ∀ piece ∈ pieces, piece.IsPhrase) :
    ∀ p ∈ addAll inLink parts pieces, p.IsPhrase := by
  unfold addAll
  split
  · exact hparts
  · rename_i start cell rest
    obtain ⟨-, hbehind⟩ := List.forall_mem_cons.mp hpieces
    obtain ⟨-, hrest⟩ := List.forall_mem_cons.mp hbehind
    exact isPhrase_addAll inLink _
      (List.forall_mem_cons.mpr ⟨Part.isPhrase_leaf rfl, hparts⟩) rest hrest
  · rename_i piece rest _
    obtain ⟨hpiece, hrest⟩ := List.forall_mem_cons.mp hpieces
    exact isPhrase_addAll inLink _ (isPhrase_addTo inLink parts hparts piece hpiece) rest hrest

end

theorem isPhrase_cons (hpiece : piece.IsPhrase) (hpieces : ∀ p ∈ pieces, p.IsPhrase) :
    ∀ p ∈ cons piece pieces, p.IsPhrase := by
  unfold cons
  split
  · exact List.forall_mem_cons.mpr ⟨.plain _, (List.forall_mem_cons.mp hpieces).2⟩
  · exact List.forall_mem_cons.mpr ⟨hpiece, hpieces⟩

theorem isPhrase_joinPlain (hpieces : ∀ p ∈ pieces, p.IsPhrase) :
    ∀ p ∈ joinPlain pieces, p.IsPhrase :=
  List.foldrRecOn pieces _ (motive := fun done => ∀ p : Piece, p ∈ done → p.IsPhrase)
    (List.forall_mem_nil _) fun _ hdone p hp => isPhrase_cons (hpieces p hp) hdone

theorem isPhrase_settle (hpiece : piece.IsPhrase) : piece.settle.IsPhrase := by
  cases piece with
  | delimiters run => exact .plain _
  | _ => exact hpiece

/-- Settled pieces, turned around. -/
theorem isPhrase_settled (hpieces : ∀ p ∈ pieces, p.IsPhrase) :
    ∀ p ∈ joinPlain (pieces.reverse.map settle), p.IsPhrase := by
  refine isPhrase_joinPlain fun p hp => ?_
  obtain ⟨q, hq, rfl⟩ := List.mem_map.mp hp
  exact isPhrase_settle (hpieces q (List.mem_reverse.mp hq))

theorem isPhrase_findOpener {closer opener : Delimiters}
    (h : findOpener closer pieces = some (inner, opener, rest))
    (hpieces : ∀ p ∈ pieces, p.IsPhrase) :
    (∀ p ∈ inner, p.IsPhrase) ∧ ∀ p ∈ rest, p.IsPhrase := by
  induction pieces generalizing inner with
  | nil => cases h
  | cons piece more ih =>
    obtain ⟨hpiece, hmore⟩ := List.forall_mem_cons.mp hpieces
    have hgoesOn : ((findOpener closer more).map fun found => (piece :: found.1, found.2)) =
        some (inner, opener, rest) → (∀ p ∈ inner, p.IsPhrase) ∧ ∀ p ∈ rest, p.IsPhrase := by
      intro h
      obtain ⟨⟨behind, found⟩, hfound, heq⟩ := Option.map_eq_some_iff.mp h
      obtain ⟨rfl, rfl⟩ := Prod.mk.inj heq
      obtain ⟨hbehind, hrest⟩ := ih hfound hmore
      exact ⟨List.forall_mem_cons.mpr ⟨hpiece, hbehind⟩, hrest⟩
    cases piece with
    | delimiters run =>
      rw [findOpener] at h
      split at h
      · obtain ⟨rfl, -, rfl⟩ := Option.some.inj h
        exact ⟨List.forall_mem_nil _, hmore⟩
      · exact hgoesOn h
    | _ => exact hgoesOn h

theorem isPhrase_delimitersIfAny {run : Delimiters} (hpieces : ∀ p ∈ pieces, p.IsPhrase) :
    ∀ p ∈ delimitersIfAny run pieces, p.IsPhrase := by
  unfold delimitersIfAny
  split
  · exact hpieces
  · exact List.forall_mem_cons.mpr ⟨.delimiters run, hpieces⟩

theorem isPhrase_trimEnd {breaks : Bool} : ∀ p ∈ (trimEnd breaks cells).2, p.IsPhrase := by
  simp only [trimEnd]
  split
  · exact List.forall_mem_singleton.mpr (.hardBreak _)
  · exact List.forall_mem_nil _

/-- Trimming leaves out blanks and puts in hard breaks. -/
theorem isPhrase_trimLines {whole atStart : Bool} (hpieces : ∀ p ∈ pieces, p.IsPhrase) :
    ∀ p ∈ trimLines whole atStart pieces, p.IsPhrase := by
  fun_induction trimLines whole atStart pieces with
  | case1 => exact hpieces
  | case2 _ cells rest last front more hend front' ih =>
    have hmore : ∀ p ∈ more, p.IsPhrase := by
      split at hend
      · obtain rfl : (trimEnd (!last) cells).2 = more := congrArg Prod.snd hend
        exact isPhrase_trimEnd
      · obtain ⟨-, rfl⟩ := Prod.mk.inj hend
        exact List.forall_mem_nil _
    refine List.forall_mem_append.mpr ⟨?_, ih (List.forall_mem_cons.mp hpieces).2⟩
    split
    · exact hmore
    · exact List.forall_mem_cons.mpr ⟨.plain _, hmore⟩
  | case3 _ c rest ih =>
    exact List.forall_mem_cons.mpr ⟨.ending c, ih (List.forall_mem_cons.mp hpieces).2⟩
  | case4 _ piece rest _ _ ih =>
    obtain ⟨hpiece, hrest⟩ := List.forall_mem_cons.mp hpieces
    exact List.forall_mem_cons.mpr ⟨hpiece, ih hrest⟩

/-- Matching a run makes emphasis of pieces. -/
theorem isPhrase_pushRun {fuel : Nat} {run : Delimiters} (hpieces : ∀ p ∈ pieces, p.IsPhrase) :
    ∀ p ∈ pushRun fuel run pieces, p.IsPhrase := by
  induction fuel generalizing run pieces with
  | zero => exact isPhrase_delimitersIfAny hpieces
  | succ fuel ih =>
    rw [pushRun]
    split
    · exact hpieces
    · simp only
      split
      · exact List.forall_mem_cons.mpr ⟨.delimiters run, hpieces⟩
      · rename_i inner opener rest hfound
        obtain ⟨hinner, hrest⟩ : (∀ p ∈ inner, p.IsPhrase) ∧ ∀ p ∈ rest, p.IsPhrase := by
          split at hfound
          · exact isPhrase_findOpener hfound hpieces
          · cases hfound
        refine ih (List.forall_mem_cons.mpr ⟨.group ?_ ?_, isPhrase_delimitersIfAny hrest⟩)
        · split
          · rfl
          · split <;> rfl
        · exact isPhrase_trimLines (isPhrase_settled hinner)

theorem isPhrase_matchRuns (hpieces : ∀ p ∈ pieces, p.IsPhrase) :
    ∀ p ∈ matchRuns pieces, p.IsPhrase := by
  refine isPhrase_settled (List.foldlRecOn pieces _
    (motive := fun done => ∀ p : Piece, p ∈ done → p.IsPhrase) (List.forall_mem_nil _)
    fun done hdone piece hpiece => ?_)
  split
  · exact isPhrase_pushRun hdone
  · exact List.forall_mem_cons.mpr ⟨hpieces piece hpiece, hdone⟩

end Piece

/-- All pieces read so far stand within a block. -/
structure Pending.IsPhrase (p : Pending) : Prop where
  pieces : ∀ piece ∈ p.pieces, piece.IsPhrase
  openers : ∀ opener ∈ p.openers, ∀ piece ∈ opener.2, piece.IsPhrase

section
variable {s : Surroundings} {p : Pending} {piece : Piece} {pieces inside : List Piece}
variable {cells behind : List Cell} {bracket c : Cell} {opener : Opener}

namespace Pending

theorem IsPhrase.push (h : p.IsPhrase) (hpiece : piece.IsPhrase) : (p.push piece).IsPhrase :=
  ⟨List.forall_mem_cons.mpr ⟨hpiece, h.pieces⟩, h.openers⟩

theorem IsPhrase.pushOpener {kind : OpenerKind} (h : p.IsPhrase) :
    (p.pushOpener kind cells).IsPhrase :=
  ⟨List.forall_mem_nil _, List.forall_mem_cons.mpr ⟨h.pieces, h.openers⟩⟩

/-- An opening bracket that is never closed is plain. -/
theorem isPhrase_append_plain (cells : List Cell) (hpieces : ∀ p ∈ pieces, p.IsPhrase)
    (hinside : ∀ p ∈ inside, p.IsPhrase) : ∀ p ∈ pieces ++ .plain cells :: inside, p.IsPhrase :=
  List.forall_mem_append.mpr ⟨hpieces, List.forall_mem_cons.mpr ⟨.plain cells, hinside⟩⟩

theorem IsPhrase.dropOpener (h : p.IsPhrase) : p.dropOpener.IsPhrase := by
  unfold Pending.dropOpener
  split
  · exact h
  · rename_i opener before rest hopeners
    have hall := h.openers
    rw [hopeners] at hall
    obtain ⟨hbefore, hrest⟩ := List.forall_mem_cons.mp hall
    exact ⟨isPhrase_append_plain _ h.pieces hbefore, hrest⟩

theorem IsPhrase.finish (h : p.IsPhrase) : ∀ piece ∈ p.finish, piece.IsPhrase := by
  have hall := List.foldlRecOn p.openers _
    (motive := fun pieces => ∀ piece : Piece, piece ∈ pieces → piece.IsPhrase) h.pieces
    fun _ hpieces opener hopener =>
      isPhrase_append_plain opener.1.cells hpieces (h.openers opener hopener)
  exact fun piece hpiece => hall piece (List.mem_reverse.mp hpiece)

end Pending

/-- Two brackets make a link, an image or a reference to a footnote. -/
theorem isPhrase_closeBracket? (h : closeBracket? s bracket cells opener inside =
    some (piece, behind)) (hinside : ∀ p ∈ inside, p.IsPhrase) : piece.IsPhrase := by
  obtain ⟨first, -, h⟩ := Option.bind_eq_some_iff.mp h
  obtain ⟨last, -, h⟩ := Option.bind_eq_some_iff.mp h
  obtain ⟨-, h⟩ := Option.ite_none_left_eq_some.mp h
  split at h
  · obtain ⟨rfl, -⟩ := Prod.mk.inj (Option.some.inj h)
    exact .part (Part.isPhrase_leaf rfl)
  · obtain ⟨⟨target, rest⟩, -, h⟩ := Option.bind_eq_some_iff.mp h
    have hchildren : ∀ p ∈ Piece.trimLines false false (Piece.matchRuns
        ((if opener.kind == .footnote then [Piece.plain [last]] else []) ++ inside)),
        p.IsPhrase := by
      refine Piece.isPhrase_trimLines (Piece.isPhrase_matchRuns
        (List.forall_mem_append.mpr ⟨?_, hinside⟩))
      split
      · exact List.forall_mem_singleton.mpr (.plain _)
      · exact List.forall_mem_nil _
    simp only at h
    split at h
    · obtain ⟨rfl, -⟩ := Prod.mk.inj (Option.some.inj h)
      exact .part (Part.isPhrase_leaf rfl)
    · obtain ⟨rfl, -⟩ := Prod.mk.inj (Option.some.inj h)
      exact .part (Part.isPhrase_leaf rfl)
    · obtain ⟨rfl, -⟩ := Prod.mk.inj (Option.some.inj h)
      exact .group rfl hchildren
    · obtain ⟨rfl, -⟩ := Prod.mk.inj (Option.some.inj h)
      exact .group rfl hchildren

theorem isPhrase_closeBracket (h : p.IsPhrase) :
    (closeBracket s bracket cells p).1.IsPhrase := by
  unfold closeBracket
  split
  · exact h.push (.plain _)
  · rename_i opener before rest hopeners
    split
    · exact h.dropOpener.push (.plain _)
    · rename_i piece behind hclose
      have hall := h.openers
      rw [hopeners] at hall
      obtain ⟨hbefore, hrest⟩ := List.forall_mem_cons.mp hall
      have hpiece := isPhrase_closeBracket? hclose fun p hp => h.pieces p (List.mem_reverse.mp hp)
      refine ⟨List.forall_mem_cons.mpr ⟨hpiece, hbefore⟩, ?_⟩
      simp only
      split
      · exact hrest
      · rintro other hother
        obtain ⟨earlier, hearlier, rfl⟩ := List.mem_map.mp hother
        exact hrest earlier hearlier

/-- An address in plain text is a link, and its start is plain otherwise. -/
theorem isPhrase_bare {close : CharClass} {previous : Option Char} {stop : Nat} :
    (match Autolink.bare? close previous stop (c :: cells) with
      | some (part, behind) => (Piece.part part, behind)
      | none => (Piece.plain [c], cells)).1.IsPhrase := by
  split
  · exact .part (Autolink.isPhrase_bare? ‹_›)
  · exact .plain _

theorem isPhrase_readPiece {previous : Option Char} {escaped : Bool} :
    (readPiece s previous escaped c cells).1.IsPhrase := by
  unfold readPiece
  simp only
  split
  · exact .ending c
  · split
    · split
      · exact .literal _ _
      · exact .plain _
    · split
      · split
        · exact .literal _ _
        · split
          · exact .hardBreak _
          · exact .plain _
      · exact .plain _
    · split
      · exact .plain _
      · split
        · exact .part (Part.isPhrase_leaf rfl)
        · exact .plain _
    · split
      · exact .part (Autolink.isPhrase_bracketed? ‹_›)
      · split
        · exact .part (Part.isPhrase_leaf rfl)
        · exact .plain _
    · exact .delimiters _
    · exact .delimiters _
    · exact .delimiters _
    · exact isPhrase_bare
    · exact isPhrase_bare
    · exact isPhrase_bare
    · exact isPhrase_bare
    · exact .plain _

theorem isPhrase_readPieces {fuel : Nat} {previous : Option Char} (h : p.IsPhrase) :
    (readPieces s fuel previous cells p).IsPhrase := by
  induction fuel generalizing previous cells p with
  | zero => exact h
  | succ fuel ih =>
    cases cells with
    | nil => exact h
    | cons c cells =>
      rw [readPieces]
      simp only
      refine ih ?_
      split
      · exact h.push (.plain _)
      · exact h.pushOpener
      · exact h.pushOpener
      · exact h.pushOpener
      · exact isPhrase_closeBracket h
      · exact h.push isPhrase_readPiece

theorem isPhrase_piecesOf : ∀ p ∈ piecesOf s cells, p.IsPhrase :=
  Piece.isPhrase_matchRuns
    (isPhrase_readPieces ⟨List.forall_mem_nil _, List.forall_mem_nil _⟩).finish

/-- Text holds no blocks. -/
theorem isPhrase_phrases (s : Surroundings) (atStart : Bool) (cells : List Cell) :
    ∀ n ∈ phrases s atStart cells, n.IsPhrase :=
  isPhrase_inOrder (Piece.isPhrase_addAll false [] (List.forall_mem_nil _) _
    (Piece.isPhrase_trimLines isPhrase_piecesOf))

end

end Tidymark.Markdown
