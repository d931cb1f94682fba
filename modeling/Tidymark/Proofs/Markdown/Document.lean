import Tidymark.Proofs.Markdown.Reading
import Tidymark.Proofs.Markdown.Taking

/-! # The blocks of a document

The rows of a document are read one after another. What is known of the blocks and of the open
block holds before the first row, and each row keeps it up; so all blocks stand in the text of the
document, as their kinds tell. -/
namespace Tidymark.Markdown

namespace Outline

/-- The blocks so far, in the document and in each open container, stand in `u`. -/
structure Kept (p : Nat) (u : Text) (o : Outline) : Prop where
  root : Markdown.Placed p u o.root
  frames : ∀ frame ∈ o.frames, Markdown.Placed p u frame.blocks

/-- What is known between two rows: where the blocks so far, and the open one, stand. -/
structure Placed (p : Nat) (u : Text) (o : Outline) : Prop extends o.Kept p u where
  leaf : o.leaf.Placed p u

end Outline

section
variable {p m n stop : Nat} {u v t ending : Text} {o : Outline} {frame : Frame}
variable {block : Block} {block? : Option Block} {frames resumed : List Frame} {row : Row}

/-- A container that is closed keeps its blocks. -/
theorem Frame.follows_toBlock (h : Placed p u frame.blocks) :
    Follows p u u (frame.toBlock stop) := by
  intro earlier hearlier
  have hinside : Placed p u frame.blocks.reverse.reverse := by rwa [List.reverse_reverse]
  unfold Frame.toBlock
  cases frame.container with
  | quote => exact .quote hinside hearlier
  | item marker number size blankStart => exact .item hinside hearlier
  | footnote label => exact .footnote hinside hearlier

namespace Outline

theorem Kept.push (h : o.Kept p u) (hblock : Follows p u v block) (huv : u <+: v) :
    (o.push block).Kept p v := by
  unfold Outline.push
  split
  · rename_i hnone
    exact ⟨hblock _ h.root, by simp [hnone]⟩
  · rename_i frame rest hframes
    have hheld := h.frames
    rw [hframes] at hheld
    refine ⟨h.root.mono huv, List.forall_mem_cons.mpr ⟨?_, fun f hf => ?_⟩⟩
    · exact hblock _ (hheld frame List.mem_cons_self)
    · exact (hheld f (List.mem_cons_of_mem _ hf)).mono huv

theorem Kept.mono (h : o.Kept p u) (huv : u <+: v) : o.Kept p v :=
  ⟨h.root.mono huv, fun f hf => (h.frames f hf).mono huv⟩

theorem Kept.push? (h : o.Kept p u) (hblock : ∀ b ∈ block?, Follows p u v b) (huv : u <+: v) :
    (o.push? block?).Kept p v := by
  cases block? with
  | none => exact h.mono huv
  | some block => exact h.push (hblock block rfl) huv

theorem Kept.pushBlankIf (h : o.Kept p u) {blank : Bool} : (o.pushBlankIf blank).Kept p u := by
  unfold Outline.pushBlankIf
  split
  · exact h.push (follows_plain rfl List.prefix_rfl) List.prefix_rfl
  · exact h

theorem Kept.close (h : o.Kept p u) : (close stop n o).Kept p u := by
  induction n generalizing o with
  | zero => exact h
  | succ n ih =>
    rw [Outline.close]
    split
    · exact h
    · rename_i frame rest hframes
      have hheld := h.frames
      rw [hframes] at hheld
      refine ih (Kept.push ⟨h.root, fun f hf => hheld f (List.mem_cons_of_mem _ hf)⟩ ?_
        List.prefix_rfl)
      exact Frame.follows_toBlock (hheld frame List.mem_cons_self)

/-- Ending what is open leaves blocks of the lines before. -/
theorem Placed.flush (h : o.Placed p u) : (o.flush n).Kept p u := by
  have hpushed :
      (({ o with leaf := .none } : Outline).push? (o.leaf.finish (!o.lazy)).1).Kept p u :=
    Kept.push? ⟨h.root, h.frames⟩ (fun _ => h.leaf.follows_finish) List.prefix_rfl
  exact ⟨hpushed.close.root, hpushed.close.frames⟩

/-- Each line keeps up what is known, whatever it turned out to be. -/
theorem Kept.settle (h : o.Kept p u) {reading : Reading} (hreading : reading.Placed p u v)
    (huv : u <+: v) {lazy : Bool} : (o.settle n lazy stop reading).Placed p v := by
  have hended : (Outline.close o.stop n (o.push? reading.ended)).Kept p u :=
    (h.push? hreading.ended List.prefix_rfl).close
  have hsettled : (((Outline.close o.stop n (o.push? reading.ended)).pushBlankIf
      (o.isBlank || reading.endedBlank)).push? reading.block).Kept p v :=
    hended.pushBlankIf.push? hreading.block huv
  exact ⟨⟨hsettled.root, hsettled.frames⟩, hreading.leaf⟩

/-- Resuming containers keeps the blocks of all of them, and leaves the end of the row. -/
theorem resume_keeps {P : List Block → Prop} {cells left : List Cell} {missed kept : List Frame}
    (h : resume cells resumed frames = (kept, missed, left)) (hresumed : ∀ f ∈ resumed, P f.blocks)
    (hframes : ∀ f ∈ frames, P f.blocks) :
    (∀ f ∈ kept, P f.blocks) ∧ (∀ f ∈ missed, P f.blocks) ∧ left <:+ cells := by
  induction frames generalizing cells resumed with
  | nil =>
    obtain ⟨rfl, rfl, rfl⟩ := h
    exact ⟨hresumed, hframes, List.suffix_rfl⟩
  | cons frame rest ih =>
    rw [resume] at h
    split at h
    · rename_i container behind hbehind
      obtain ⟨hfirst, hrest⟩ := List.forall_mem_cons.mp hframes
      obtain ⟨hkept, hmissed, hleft⟩ := ih h (List.forall_mem_cons.mpr ⟨hfirst, hresumed⟩) hrest
      exact ⟨hkept, hmissed, hleft.trans (Container.resume?_suffix hbehind)⟩
    · obtain ⟨rfl, rfl, rfl⟩ := h
      exact ⟨hresumed, hframes, List.suffix_rfl⟩

/-- Containers that a row opens are empty, and leave the end of the row. -/
theorem openAll_spec {fuel : Nat} {interrupts : Bool} (h : Reads p u t ending row)
    (hframes : ∀ f ∈ frames, f.blocks = []) :
    (∀ f ∈ (openAll fuel interrupts row frames).1, f.blocks = []) ∧
      Reads p u t ending (openAll fuel interrupts row frames).2 := by
  induction fuel generalizing row frames with
  | zero => exact ⟨hframes, h⟩
  | succ fuel ih =>
    rw [openAll]
    split
    · rename_i container left hleft
      exact ih (h.suffix (Container.open?_suffix hleft))
        (List.forall_mem_cons.mpr ⟨rfl, hframes⟩)
    · exact ⟨hframes, h⟩

/-- A line for the open block, within other containers. -/
theorem Placed.settle_read (h : o.Placed p u) (hrow : Reads p u t ending row) (hfresh : Fresh u)
    (hframes : ∀ f ∈ frames, Markdown.Placed p u f.blocks) {interrupts follows lazy : Bool}
    {standing : Standing} :
    (({ o with frames } : Outline).settle n lazy stop
      (o.leaf.read interrupts follows standing row)).Placed p (u ++ t ++ ending) :=
  Kept.settle (o := { o with frames }) ⟨h.root, hframes⟩ (hrow.placed_read hfresh h.leaf)
    (prefix_append_line u t ending)

/-- A line that opens containers. -/
theorem Kept.settle_open (h : o.Kept p u) (hrow : Reads p u t ending row) (hfresh : Fresh u)
    (hframes : ∀ f ∈ frames, f.blocks = []) {interrupts follows lazy blank : Bool}
    {standing : Standing} :
    (({ o with frames := frames ++ o.frames, isBlank := blank } : Outline).settle n lazy stop
      (Leaf.none.read interrupts follows standing row)).Placed p (u ++ t ++ ending) := by
  have hnone : Leaf.none.Placed p u := trivial
  refine Kept.settle (o := { o with frames := frames ++ o.frames, isBlank := blank })
    ⟨h.root, fun f hf => ?_⟩ (hrow.placed_read hfresh hnone) (prefix_append_line u t ending)
  rcases List.mem_append.mp hf with hf | hf
  · rw [hframes f hf]
    exact .nil
  · exact h.frames f hf

/-- Reading a row keeps up what is known. -/
theorem Placed.step (h : o.Placed p u) (hrow : Reads p u t ending row) (hfresh : Fresh u) :
    (o.step row).Placed p (u ++ t ++ ending) := by
  unfold Outline.step
  split
  rename_i resumed missed cells hresume
  obtain ⟨hresumed, hmissed, hcells⟩ := resume_keeps hresume (by simp)
    fun f hf => h.frames f (List.mem_reverse.mp hf)
  have hleft := hrow.suffix hcells
  have hback : ∀ f ∈ missed.reverse ++ resumed, Markdown.Placed p u f.blocks := by
    simp only [List.mem_append, List.mem_reverse]
    exact fun f hf => hf.elim (hmissed f) (hresumed f)
  have hkept : ∀ f ∈ (missed.map fun frame => { frame with bare := false }).reverse ++ resumed,
      Markdown.Placed p u f.blocks := by
    simp only [List.mem_append, List.mem_reverse, List.mem_map]
    rintro f (⟨frame, hframe, rfl⟩ | hf)
    · exact hmissed frame hframe
    · exact hresumed f hf
  simp only
  split
  · rw [if_pos List.isEmpty_nil]
    split
    · exact h.settle_read hleft hfresh hkept
    · exact h.settle_read hleft hfresh hback
  · obtain ⟨hopened, hinner⟩ := openAll_spec hleft (List.forall_mem_nil _)
    split
    · split
      · exact h.settle_read hleft hfresh hkept
      · exact h.settle_read hleft hfresh hback
    · have hended : ({ o with frames := missed.reverse ++ resumed } : Outline).Placed p u :=
        ⟨⟨h.root, hback⟩, h.leaf⟩
      exact hended.flush.pushBlankIf.settle_open hinner hfresh hopened

/-- A line behind `u` is read from its start. -/
theorem reads_line {cells : List Cell} (h : Spells (p + Text.size u) cells t) :
    Reads p u t [] ⟨cells, none, p + Text.size u + t.size⟩ where
  cells := ⟨[], t, rfl, by simpa using h⟩
  stop := by simp only [Text.size_append, Nat.add_assoc]
  ending e he := by cases he

theorem reads_line_ending {cells : List Cell} (h : Spells (p + Text.size u) cells t)
    (hne : ending ≠ []) : Reads p u t ending
      ⟨cells, some (endingCell (p + Text.size u + t.size) ending), p + Text.size u + t.size⟩ where
  cells := ⟨[], t, rfl, by simpa using h⟩
  stop := by simp only [Text.size_append, Nat.add_assoc]
  ending e he := by
    obtain rfl := Option.some.inj he
    refine ⟨hne, rfl, ?_⟩
    simp only [endingCell, Text.size_append, Nat.add_assoc]

/-- A line ending comes before a line. -/
theorem fresh_append (hne : ending ≠ []) (hends : ∀ c ∈ ending, endsLine c = true) :
    Fresh (u ++ ending) := by
  intro c hc
  rw [List.getLast?_append_of_ne_nil _ hne] at hc
  exact hends c (List.mem_of_getLast? hc)

/-- What is known holds behind all rows of a text. -/
theorem Placed.foldl {rows : List Row} (hlays : Lays n t rows) (hn : n = p + Text.size u)
    (hfresh : Fresh u) (h : o.Placed p u) : (rows.foldl Outline.step o).Placed p (u ++ t) := by
  induction hlays generalizing u o with
  | nil n => simpa using h
  | last hspells =>
    subst hn
    simpa using h.step (reads_line hspells) hfresh
  | cons hspells hne hends tail ih =>
    subst hn
    have hstep := h.step (reads_line_ending hspells hne) hfresh
    have hrest := ih (by simp only [Text.size_append, Nat.add_assoc]) (fresh_append hne hends) hstep
    simpa using hrest

end Outline

/-- The blocks of a text stand where they tell. -/
theorem placed_ofRows {rows : List Row} (h : Lays p t rows) :
    Placed p t (Outline.ofRows rows).reverse := by
  have hnone : Leaf.none.Placed p [] := trivial
  have hlast := Outline.Placed.foldl (u := []) (o := {}) h rfl (by simp [Fresh])
    ⟨⟨.nil, by simp⟩, hnone⟩
  rw [Outline.ofRows, List.reverse_reverse]
  exact (hlast.flush).root

end
end Tidymark.Markdown
