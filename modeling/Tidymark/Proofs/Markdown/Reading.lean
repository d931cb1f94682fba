import Tidymark.Proofs.Markdown.Placed

/-! # What a line is made of

A line is read by the block that is open, or starts one. Either way, what the line completes, what
it ends and what stays open behind it stands in the lines read so far. -/
namespace Tidymark.Markdown

/-- A row that holds the end of the line `t`, which follows `u` and ends in `ending`. -/
structure Reads (p : Nat) (u t ending : Text) (row : Row) : Prop where
  cells : ∃ front body, t = front ++ body ∧ Spells (p + Text.size (u ++ front)) row.cells body
  stop : row.stop = p + Text.size (u ++ t)
  ending : ∀ e ∈ row.ending, ending ≠ [] ∧ e.start = row.stop ∧
    e.stop = p + Text.size (u ++ t ++ ending)

section
variable {p : Nat} {u t ending : Text} {row : Row} {cells : List Cell}

theorem prefix_append_line (u t ending : Text) : u <+: u ++ t ++ ending :=
  ⟨t ++ ending, by simp⟩

/-- A container leaves the end of the line. -/
theorem Reads.suffix (h : Reads p u t ending row) (hcells : cells <:+ row.cells) :
    Reads p u t ending { row with cells } := by
  obtain ⟨front, body, rfl, hbody⟩ := h.cells
  obtain ⟨a, b, rfl, hb⟩ := hbody.suffix hcells
  refine ⟨⟨front ++ a, b, by simp, ?_⟩, h.stop, h.ending⟩
  rwa [← List.append_assoc, Text.size_append (u ++ front), ← Nat.add_assoc]

/-- The text that a row spells, and where the parts of it stand that end with the line. -/
theorem Reads.exists_body (h : Reads p u t ending row) : ∃ n front body, t = front ++ body ∧
    Spells n row.cells body ∧ row.stop = n + Text.size body ∧
    ∀ indent rest, body = indent ++ rest →
      Shows p (u ++ t ++ ending) (n + Text.size indent) row.stop rest := by
  obtain ⟨front, body, rfl, hbody⟩ := h.cells
  have hstop := h.stop
  refine ⟨_, front, body, rfl, hbody, ?_, fun indent rest hrest => ?_⟩
  · rw [hstop]
    simp only [Text.size_append]
    omega
  · subst hrest
    refine ⟨u ++ front ++ indent, ending, by simp, ?_, ?_⟩
    · simp only [Text.size_append]
      omega
    · rw [hstop]
      simp only [Text.size_append]
      omega

/-- What a row spells stands where its cells do. -/
theorem Reads.holds_line {P : Text → Prop} (h : Reads p u t ending row)
    (hP : ∀ n body, Spells n row.cells body → P body) :
    Holds p (u ++ t ++ ending) (Cells.start row.stop row.cells) row.stop P := by
  obtain ⟨n, front, body, -, hbody, hstop, hshows⟩ := h.exists_body
  have hstart : Cells.start row.stop row.cells = n := by rw [hstop, hbody.start_eq]
  rw [hstart]
  exact ⟨body, hshows [] body rfl, hP n body hbody⟩

/-- What a row holds starts in the lines up to this one. -/
theorem Reads.startsIn (h : Reads p u t ending row) :
    ∀ n ∈ row.starts, StartsIn p (u ++ t ++ ending) n := by
  intro n hn
  obtain ⟨c, hc, rfl⟩ := List.mem_map.mp hn
  rcases List.mem_append.mp hc with hc | hc
  · obtain ⟨front, body, rfl, hbody⟩ := h.cells
    obtain ⟨a, b, rfl, hb, hstart⟩ := hbody.exists_start hc
    refine ⟨u ++ front ++ a, b ++ ending, by simp, by simp [hb], ?_⟩
    rw [hstart, Text.size_append (u ++ front), Nat.add_assoc]
  · obtain ⟨hne, hstart, -⟩ := h.ending c (Option.mem_toList.mp hc)
    exact ⟨u ++ t, ending, rfl, hne, hstart.trans h.stop⟩

theorem Reads.starts_content (h : Reads p u t ending row) :
    ∀ n ∈ (Block.content [row]).starts, StartsIn p (u ++ t ++ ending) n := by
  intro n hn
  rw [Block.starts, List.flatMap_singleton] at hn
  exact h.startsIn n hn

end

/-- What is known of an open block between two lines: where its text, as far as it has been read,
stands. -/
def Leaf.Placed (p : Nat) (u : Text) : Leaf → Prop
  | .fenced fence _ stop ending => Holds p u fence.start stop Fenced ∧
      ∀ e ∈ ending, Holds p u fence.start e.stop Fenced
  | .indented span .. => Holds p u span.start span.stop Indented
  | .tableHead row => ∀ n ∈ (Block.content [row]).starts, StartsIn p u n
  | _ => True

/-- What is known of the reading of a line that makes `v` of `u`. -/
structure Reading.Placed (p : Nat) (u v : Text) (r : Reading) : Prop where
  ended : ∀ b ∈ r.ended, Follows p u u b
  block : ∀ b ∈ r.block, Follows p u v b
  leaf : r.leaf.Placed p v

section
variable {p : Nat} {u v t ending : Text} {row : Row} {leaf : Leaf} {block : Block}
variable {interrupts follows : Bool} {standing : Standing} {r : Reading}

/-- Ending an open block leaves a block of the lines before. -/
theorem Leaf.Placed.follows_finish {flush : Bool} (h : leaf.Placed p u)
    (hblock : block ∈ (leaf.finish flush).1) : Follows p u u block := by
  cases leaf with
  | none => cases hblock
  | fenced fence value stop ending =>
    obtain rfl := Option.some.inj hblock
    refine follows_code ?_ List.prefix_rfl
    cases flush with
    | false => exact h.1.imp fun _ => .inl
    | true =>
      cases ending with
      | none => exact h.1.imp fun _ => .inl
      | some e => exact (h.2 e rfl).imp fun _ => .inl
  | html kind start value stop ending =>
    obtain rfl := Option.some.inj hblock
    exact follows_plain rfl List.prefix_rfl
  | indented span value gap gapped alone =>
    obtain rfl := Option.some.inj hblock
    exact follows_code (h.imp fun _ => .inr) List.prefix_rfl
  | tableHead row =>
    obtain rfl := Option.some.inj hblock
    exact follows_content h List.prefix_rfl
  | table span rows =>
    obtain rfl := Option.some.inj hblock
    exact follows_plain rfl List.prefix_rfl

theorem Reading.placed_ofBlock (h : Follows p u v block) :
    (Reading.ofBlock block).Placed p u v where
  ended _ hb := by cases hb
  block _ hb := Option.some.inj hb ▸ h
  leaf := trivial

theorem Reading.placed_ofLeaf (h : leaf.Placed p v) : (Reading.ofLeaf leaf).Placed p u v where
  ended _ hb := by cases hb
  block _ hb := by cases hb
  leaf := h

theorem Reading.placed_blank : ({ isBlank := true } : Reading).Placed p u v where
  ended _ hb := by cases hb
  block _ hb := by cases hb
  leaf := trivial

theorem Reading.placed_getD {found : Option Reading}
    (hfound : ∀ x ∈ found, x.Placed p u v) (hr : r.Placed p u v) : (found.getD r).Placed p u v := by
  cases found with
  | none => exact hr
  | some x => exact hfound x rfl

theorem Reading.placed_or {found other : Option Reading} (hfound : ∀ x ∈ found, x.Placed p u v)
    (hother : ∀ x ∈ other, x.Placed p u v) : ∀ x ∈ found.or other, x.Placed p u v := by
  cases found with
  | none => exact hother
  | some y => exact hfound

variable (h : Reads p u t ending row)
include h

theorem Reads.placed_text : (Reading.text row).Placed p u (u ++ t ++ ending) where
  ended _ hb := by cases hb
  block _ hb :=
    Option.some.inj hb ▸ follows_content h.starts_content (prefix_append_line u t ending)
  leaf := trivial

theorem Reads.placed_heading? (hr : Leaf.heading? row = some r) :
    r.Placed p u (u ++ t ++ ending) := by
  obtain ⟨⟨depth, text⟩, hread, rfl⟩ := Option.map_eq_some_iff.mp hr
  have hmarked := h.holds_line fun _ _ hbody => marked_of_hashHeading? hbody hread
  exact Reading.placed_ofBlock fun earlier hearlier =>
    .heading hmarked (hearlier.mono (prefix_append_line u t ending))

omit h in
theorem Leaf.placed_rule? (hr : Leaf.rule? row = some r) : r.Placed p u (u ++ t ++ ending) := by
  unfold Leaf.rule? at hr
  split at hr
  · obtain rfl := Option.some.inj hr
    exact Reading.placed_ofBlock (follows_plain rfl (prefix_append_line u t ending))
  · cases hr

/-- Behind its line, a text may take the end of the line as well. -/
theorem Reads.placed_fenced {fence : Line.Fence} {value : Text}
    (hheld : Holds p (u ++ t ++ ending) fence.start row.stop Fenced) :
    (Leaf.fenced fence value row.stop row.ending).Placed p (u ++ t ++ ending) := by
  refine ⟨hheld, fun e he => ?_⟩
  rw [(h.ending e he).2.2]
  exact hheld.to_end fun _ v ht => ht.append v

theorem Reads.placed_fenced? (hr : Leaf.fenced? row = some r) :
    r.Placed p u (u ++ t ++ ending) := by
  obtain ⟨fence, hread, rfl⟩ := Option.map_eq_some_iff.mp hr
  obtain ⟨n, front, body, -, hbody, hstop, hshows⟩ := h.exists_body
  obtain ⟨indent, rest, hrest, hstart, hfenced⟩ := fenced_of_openFence? hbody hstop hread
  have hholds : Holds p (u ++ t ++ ending) fence.start row.stop Fenced :=
    ⟨rest, hstart ▸ hshows indent rest hrest, hfenced⟩
  exact Reading.placed_ofLeaf (h.placed_fenced hholds)

omit h in
theorem Leaf.placed_html? (hr : Leaf.html? interrupts standing row = some r) :
    r.Placed p u (u ++ t ++ ending) := by
  obtain ⟨⟨kind, ends⟩, -, rfl⟩ := Option.map_eq_some_iff.mp hr
  simp only
  split
  · exact Reading.placed_ofBlock (follows_plain rfl (prefix_append_line u t ending))
  · exact Reading.placed_ofLeaf trivial

theorem Reads.placed_indented? (hr : Leaf.indented? interrupts standing row = some r) :
    r.Placed p u (u ++ t ++ ending) := by
  unfold Leaf.indented? at hr
  split at hr
  · cases hr
  · obtain ⟨rest, hread, rfl⟩ := Option.map_eq_some_iff.mp hr
    exact Reading.placed_ofLeaf
      (h.holds_line fun _ _ hbody => indented_of_dropExactly hbody hread)

/-- A line underlines what stands above it. -/
theorem Reads.placed_underline? (hfresh : Fresh u)
    (hr : Leaf.underline? follows standing row = some r) : r.Placed p u (u ++ t ++ ending) := by
  unfold Leaf.underline? at hr
  split at hr
  · obtain ⟨depth, hread, rfl⟩ := Option.map_eq_some_iff.mp hr
    obtain ⟨n, front, body, rfl, hbody, -, -⟩ := h.exists_body
    obtain ⟨indent, rest, rfl, hunderline⟩ := underline_of_underlineDepth? hbody hread
    have hne : row.cells ≠ [] := by
      intro hnone
      rw [hnone] at hread
      cases hread
    refine ⟨fun _ hb => (by cases hb), fun b hb earlier hearlier => ?_, trivial⟩
    obtain rfl := Option.some.inj hb
    refine .underline hne h.startsIn ⟨u, front ++ indent, rest, ending, by simp, hfresh, ?_,
      hunderline, hearlier.startsIn⟩ (hearlier.mono (prefix_append_line u _ ending))
    rw [h.stop]
    simp
  · cases hr

theorem Reads.placed_tableOrText {table? : Option (Span × List TableRow)} :
    (Leaf.tableOrText table? standing row).Placed p u (u ++ t ++ ending) := by
  unfold Leaf.tableOrText
  split
  · split
    · exact h.placed_text
    · exact Reading.placed_ofLeaf trivial
  · split
    · exact {
        ended := fun _ hb => (by cases hb)
        block := fun _ hb => (by cases hb)
        leaf := fun n hn => h.starts_content n hn }
    · exact h.placed_text

/-- A line that no open block takes. -/
theorem Reads.placed_start (hfresh : Fresh u) {table? : Option (Span × List TableRow)} :
    (Leaf.start interrupts follows table? standing row).Placed p u (u ++ t ++ ending) := by
  unfold Leaf.start
  split
  · exact Reading.placed_blank
  · split
    · exact Reading.placed_getD (fun _ => h.placed_heading?) h.placed_text
    · split
      · exact Reading.placed_getD (fun _ => h.placed_fenced?) h.placed_text
      · split
        · exact Reading.placed_getD (fun _ => Leaf.placed_rule?) h.placed_text
        · split
          · exact Reading.placed_getD (fun _ => Leaf.placed_html?) h.placed_tableOrText
          · split
            · exact h.placed_text
            · split
              · exact Reading.placed_blank
              · refine Reading.placed_getD ?_ h.placed_tableOrText
                refine Reading.placed_or ?_ fun _ => Leaf.placed_rule?
                refine Reading.placed_or ?_ fun _ => h.placed_underline? hfresh
                refine Reading.placed_or ?_ fun _ => h.placed_heading?
                refine Reading.placed_or ?_ fun _ => Leaf.placed_html?
                exact Reading.placed_or (fun _ => h.placed_indented?) fun _ => h.placed_fenced?

/-- A text that may go on goes on to the end of the line. -/
theorem Reads.holds {start stop : Nat} {P : Text → Prop} (hheld : Holds p u start stop P)
    (hP : ∀ t v, P t → P (t ++ v)) : Holds p (u ++ t ++ ending) start row.stop P := by
  have hline := (hheld.mono (List.prefix_append u t)).to_end hP
  rw [← h.stop] at hline
  exact hline.mono (List.prefix_append _ _)

/-- A line that ends the open block. -/
theorem Reads.placed_endWith (hfresh : Fresh u) (hleaf : leaf.Placed p u) {blank : Bool} :
    ({ Leaf.start interrupts follows none standing row with
        ended := (leaf.finish false).1, endedBlank := blank } : Reading).Placed p u
      (u ++ t ++ ending) where
  ended _ hb := hleaf.follows_finish hb
  block := (h.placed_start hfresh).block
  leaf := (h.placed_start hfresh).leaf

theorem Reads.placed_read_fenced (hfresh : Fresh u) {fence : Line.Fence} {value : Text}
    {stop : Nat} {e : Option Cell} (hleaf : (Leaf.fenced fence value stop e).Placed p u) :
    ((Leaf.fenced fence value stop e).read interrupts follows standing row).Placed p u
      (u ++ t ++ ending) := by
  have hheld := h.holds hleaf.1 fun _ v ht => ht.append v
  simp only [Leaf.read]
  split
  · exact h.placed_endWith hfresh hleaf
  · split
    · exact Reading.placed_ofBlock
        (follows_code (hheld.imp fun _ => .inl) (prefix_append_line u t ending))
    · exact Reading.placed_ofLeaf (h.placed_fenced hheld)

theorem Reads.placed_read_html (hfresh : Fresh u) {kind : Line.HtmlKind} {value : Text}
    {start stop : Nat} {e : Option Cell} :
    ((Leaf.html kind start value stop e).read interrupts follows standing row).Placed p u
      (u ++ t ++ ending) := by
  have hleaf : (Leaf.html kind start value stop e).Placed p u := trivial
  simp only [Leaf.read]
  split
  · exact h.placed_endWith hfresh hleaf
  · split
    · exact Reading.placed_ofBlock (follows_plain rfl (prefix_append_line u t ending))
    · exact Reading.placed_ofLeaf trivial

theorem Reads.placed_read_indented (hfresh : Fresh u) {span : Span} {value gap : Text}
    {gapped alone : Bool} (hleaf : (Leaf.indented span value gap gapped alone).Placed p u) :
    ((Leaf.indented span value gap gapped alone).read interrupts follows standing row).Placed p u
      (u ++ t ++ ending) := by
  simp only [Leaf.read]
  split
  · exact h.placed_endWith hfresh hleaf
  · split
    · exact Reading.placed_ofLeaf (h.holds hleaf fun _ v ht => ht.append v)
    · split
      · exact Reading.placed_ofLeaf (Holds.mono hleaf (prefix_append_line u t ending))
      · exact h.placed_endWith hfresh hleaf

theorem Reads.placed_read_tableHead (hfresh : Fresh u) {head : Row}
    (hleaf : (Leaf.tableHead head).Placed p u) :
    ((Leaf.tableHead head).read interrupts follows standing row).Placed p u
      (u ++ t ++ ending) := by
  simp only [Leaf.read]
  split
  · exact Reading.placed_ofLeaf trivial
  · exact h.placed_endWith hfresh hleaf

theorem Reads.placed_read_table (hfresh : Fresh u) {span : Span} {rows : List TableRow} :
    ((Leaf.table span rows).read interrupts follows standing row).Placed p u
      (u ++ t ++ ending) := by
  have hstart : (Leaf.start interrupts follows (some (span, rows)) standing row).Placed p u
      (u ++ t ++ ending) := h.placed_start hfresh
  simp only [Leaf.read]
  split
  · exact hstart
  · refine { hstart with ended := fun b hb => ?_ }
    obtain rfl := Option.some.inj hb
    exact follows_plain rfl List.prefix_rfl

/-- Each line leaves the open block, and what it ends or is itself, in the lines read so far. -/
theorem Reads.placed_read (hfresh : Fresh u) (hleaf : leaf.Placed p u) :
    (leaf.read interrupts follows standing row).Placed p u (u ++ t ++ ending) := by
  cases leaf with
  | none => exact h.placed_start hfresh
  | fenced fence value stop e => exact h.placed_read_fenced hfresh hleaf
  | html kind start value stop e => exact h.placed_read_html hfresh
  | indented span value gap gapped alone => exact h.placed_read_indented hfresh hleaf
  | tableHead head => exact h.placed_read_tableHead hfresh hleaf
  | table span rows => exact h.placed_read_table hfresh

end
end Tidymark.Markdown
