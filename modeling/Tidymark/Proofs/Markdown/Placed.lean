import Tidymark.Markdown.Outline
import Tidymark.Proofs.Markdown.Style

/-! # Where blocks stand

Blocks are made line by line, and each tells where it stands. Of the blocks made so far, the
headings and the code have their texts in the lines read so far; prose starts in these lines, and a
line that underlines it comes behind all lines of the prose above it. -/
namespace Tidymark.Markdown

/-- The text `t` stands between two offsets of `u`, which starts at `p`. -/
def Shows (p : Nat) (u : Text) (start stop : Nat) (t : Text) : Prop :=
  ∃ x y, u = x ++ t ++ y ∧ start = p + Text.size x ∧ stop = start + Text.size t

/-- What stands between two offsets of `u` has a property. -/
def Holds (p : Nat) (u : Text) (start stop : Nat) (P : Text → Prop) : Prop :=
  ∃ t, Shows p u start stop t ∧ P t

/-- A character of `u`, which starts at `p`, stands at the offset. -/
def StartsIn (p : Nat) (u : Text) (n : Nat) : Prop :=
  ∃ x y, u = x ++ y ∧ y ≠ [] ∧ n = p + Text.size x

/-- What follows `u` starts a line. -/
def Fresh (u : Text) : Prop := ∀ c ∈ u.getLast?, endsLine c = true

/-- Where the cells of a row start. -/
def Row.starts (row : Row) : List Nat := (row.cells ++ row.ending.toList).map (·.start)

namespace Block

/-- Where prose that a block holds may start. -/
def starts : Block → List Nat
  | content rows => rows.flatMap Row.starts
  | underline _ row => row.starts
  | _ => []

/-- Whether the block is neither prose, heading nor code, and holds no others. -/
def isPlain : Block → Bool
  | blank | rule _ | html .. | table .. => true
  | _ => false

end Block

/-- A line of `u` ends in `row`, which underlines prose; what `earlier` holds starts above that
line. -/
def Underlines (p : Nat) (u : Text) (depth : Nat) (row : Row) (earlier : List Block) : Prop :=
  ∃ above front body rest, u = above ++ front ++ body ++ rest ∧ Fresh above ∧
    row.stop = p + Text.size (above ++ front ++ body) ∧ Underline depth body ∧
    ∀ b ∈ earlier, ∀ n ∈ b.starts, StartsIn p above n

/-- Blocks that are made of the lines of `u`, which starts at `p`; the last one comes first. -/
inductive Placed (p : Nat) (u : Text) : List Block → Prop
  | nil : Placed p u []
  | plain {b : Block} {earlier : List Block} (h : b.isPlain = true) (tail : Placed p u earlier) :
      Placed p u (b :: earlier)
  | content {rows : List Row} {earlier : List Block}
      (h : ∀ n ∈ (Block.content rows).starts, StartsIn p u n) (tail : Placed p u earlier) :
      Placed p u (.content rows :: earlier)
  | underline {depth : Nat} {row : Row} {earlier : List Block} (hne : row.cells ≠ [])
      (h : ∀ n ∈ row.starts, StartsIn p u n) (hline : Underlines p u depth row earlier)
      (tail : Placed p u earlier) : Placed p u (.underline depth row :: earlier)
  | heading {depth : Nat} {span : Span} {text : List Cell} {earlier : List Block}
      (h : Holds p u span.start span.stop (Marked depth)) (tail : Placed p u earlier) :
      Placed p u (.heading depth span text :: earlier)
  | code {span : Span} {info : Option (List Cell)} {value : Text} {earlier : List Block}
      (h : Holds p u span.start span.stop fun t => Fenced t ∨ Indented t)
      (tail : Placed p u earlier) : Placed p u (.code span info value :: earlier)
  | quote {span : Span} {bare : Bool} {children earlier : List Block}
      (inside : Placed p u children.reverse) (tail : Placed p u earlier) :
      Placed p u (.quote span bare children :: earlier)
  | item {span : Span} {marker : Char} {number : Option Nat} {children earlier : List Block}
      (inside : Placed p u children.reverse) (tail : Placed p u earlier) :
      Placed p u (.item span marker number children :: earlier)
  | footnote {span : Span} {label : Text} {children earlier : List Block}
      (inside : Placed p u children.reverse) (tail : Placed p u earlier) :
      Placed p u (.footnote span label children :: earlier)

section
variable {p start stop n : Nat} {u v w t : Text} {P Q : Text → Prop}
variable {b : Block} {blocks earlier : List Block}

theorem Shows.mono (h : Shows p u start stop t) (huv : u <+: v) : Shows p v start stop t := by
  obtain ⟨w, rfl⟩ := huv
  obtain ⟨x, y, rfl, hstart, hstop⟩ := h
  exact ⟨x, y ++ w, by simp, hstart, hstop⟩

theorem Holds.mono (h : Holds p u start stop P) (huv : u <+: v) : Holds p v start stop P := by
  obtain ⟨t, ht, hP⟩ := h
  exact ⟨t, ht.mono huv, hP⟩

theorem Holds.imp (h : Holds p u start stop P) (hPQ : ∀ t, P t → Q t) : Holds p u start stop Q := by
  obtain ⟨t, ht, hP⟩ := h
  exact ⟨t, ht, hPQ t hP⟩

/-- What a text starts with stays when the text goes on to the end of `u`. -/
theorem Holds.to_end (h : Holds p u start stop P) (hP : ∀ t v, P t → P (t ++ v)) :
    Holds p u start (p + Text.size u) P := by
  obtain ⟨t, ⟨x, y, rfl, rfl, -⟩, ht⟩ := h
  refine ⟨t ++ y, ⟨x, [], by simp, rfl, ?_⟩, hP t y ht⟩
  simp only [Text.size_append]
  omega

theorem StartsIn.mono (h : StartsIn p u n) (huv : u <+: v) : StartsIn p v n := by
  obtain ⟨w, rfl⟩ := huv
  obtain ⟨x, y, rfl, hy, hn⟩ := h
  exact ⟨x, y ++ w, by simp, by simp [hy], hn⟩

theorem Underlines.mono {depth : Nat} {row : Row} (h : Underlines p u depth row earlier)
    (huv : u <+: v) : Underlines p v depth row earlier := by
  obtain ⟨w, rfl⟩ := huv
  obtain ⟨above, front, body, rest, rfl, hfresh, hrow⟩ := h
  exact ⟨above, front, body, rest ++ w, by simp, hfresh, hrow⟩

/-- Blocks stay where they are when further lines are read. -/
theorem Placed.mono (h : Placed p u blocks) (huv : u <+: v) : Placed p v blocks := by
  induction h with
  | nil => exact .nil
  | plain h _ ih => exact .plain h ih
  | content h _ ih => exact .content (fun n hn => (h n hn).mono huv) ih
  | underline hne h hline _ ih =>
    exact .underline hne (fun n hn => (h n hn).mono huv) (hline.mono huv) ih
  | heading h _ ih => exact .heading (h.mono huv) ih
  | code h _ ih => exact .code (h.mono huv) ih
  | quote _ _ ihInside ih => exact .quote ihInside ih
  | item _ _ ihInside ih => exact .item ihInside ih
  | footnote _ _ ihInside ih => exact .footnote ihInside ih

/-- All prose starts in the lines read so far. -/
theorem Placed.startsIn (h : Placed p u blocks) : ∀ b ∈ blocks, ∀ n ∈ b.starts, StartsIn p u n := by
  induction h with
  | nil => simp
  | @plain b earlier hplain _ ih =>
    refine List.forall_mem_cons.mpr ⟨fun n hn => ?_, ih⟩
    cases b <;> first | cases hn | cases hplain
  | content h _ ih => exact List.forall_mem_cons.mpr ⟨h, ih⟩
  | underline _ h _ _ ih => exact List.forall_mem_cons.mpr ⟨h, ih⟩
  | heading _ _ ih | code _ _ ih => exact List.forall_mem_cons.mpr ⟨nofun, ih⟩
  | quote _ _ _ ih | item _ _ _ ih | footnote _ _ _ ih =>
    exact List.forall_mem_cons.mpr ⟨nofun, ih⟩

/-- Put behind blocks of `u`, the block leaves blocks of `v`. -/
def Follows (p : Nat) (u v : Text) (b : Block) : Prop :=
  ∀ earlier, Placed p u earlier → Placed p v (b.push earlier)

theorem follows_plain (h : b.isPlain = true) (huv : u <+: v) : Follows p u v b := by
  intro earlier hearlier
  cases b <;> first | exact .plain h (hearlier.mono huv) | cases h

theorem follows_code {span : Span} {info : Option (List Cell)} {value : Text}
    (h : Holds p v span.start span.stop fun t => Fenced t ∨ Indented t) (huv : u <+: v) :
    Follows p u v (.code span info value) :=
  fun _ hearlier => .code h (hearlier.mono huv)

/-- Lines of prose join those right above them. -/
theorem follows_content {rows : List Row}
    (h : ∀ n ∈ (Block.content rows).starts, StartsIn p v n) (huv : u <+: v) :
    Follows p u v (.content rows) := by
  intro earlier hearlier
  unfold Block.push
  split
  · rename_i rows' more rest heq
    obtain rfl : rows = rows' := by cases heq; rfl
    cases hearlier with
    | plain hplain => cases hplain
    | content hmore tail =>
      refine .content (fun n hn => ?_) (tail.mono huv)
      rw [Block.starts, List.flatMap_append] at hn
      rcases List.mem_append.mp hn with hn | hn
      · exact (hmore n hn).mono huv
      · exact h n hn
  · exact .content h (hearlier.mono huv)

end

end Tidymark.Markdown
