import Tidymark.Proofs.Edit.Linewise
import Tidymark.Proofs.Line.Pieces
import Tidymark.Proofs.Rule.Fixing
import Tidymark.Proofs.Rules.Reports

/-! # Spaces are put behind hashes

What the fix of the rule for missing spaces makes of a text. A line that is not blank is
indentation, hashes, and what is behind these, in one way; the space that is put behind the hashes is
white space, so the line is cut in the same place again, and the rule is content with it. -/
namespace Tidymark.Rules.HashSpace

open EditPlan (Turns)

/-- The hashes behind the indentation. -/
def hashes (line : Line) : Text := (line.text.drop line.indentation.length).takeWhile (· == '#')

/-- The text behind these hashes. -/
def behind (line : Line) : Text := (line.text.drop line.indentation.length).dropWhile (· == '#')

/-- The line is meant as a heading, but goes on right behind its hashes. -/
@[mk_iff]
structure LacksSpace (line : Line) : Prop where
  plain : line.verbatim = false
  visible : line.isBlank = false
  near : line.indent ≤ 3
  some : 1 ≤ (hashes line).length
  few : (hashes line).length ≤ 6
  glued : ∃ c ∈ (behind line).head?, Text.isWhitespace c = false

instance (line : Line) : Decidable (LacksSpace line) :=
  decidable_of_iff _ (lacksSpace_iff line).symm

/-- The text of the line, with a space behind the hashes if it lacks one. -/
def spaced (line : Line) : Text :=
  if LacksSpace line then line.indentation ++ hashes line ++ ' ' :: behind line else line.text

def insertions (line : Line) : List Edit :=
  if LacksSpace line then [.insert (line.contentStart + (hashes line).length) [' ']] else []

variable {ctx : RuleContext} {source : Text} {line : Line}

theorem text_eq (line : Line) : line.indentation ++ hashes line ++ behind line = line.text := by
  have htext := List.prefix_iff_eq_append.mp line.indentation_isPrefix
  rw [List.append_assoc, hashes, behind, List.takeWhile_append_dropWhile, htext]

theorem eq_hash_of_mem_hashes {c : Char} (h : c ∈ hashes line) : c = '#' := by
  exact beq_iff_eq.mp (List.mem_takeWhile_imp (p := (· == '#')) h)

/-- Indentation, hashes and what is behind them are found again where they stand. -/
theorem parts_of_text {indentation marks rest : Text}
    (hindentation : ∀ c ∈ indentation, Text.isWhitespace c = true) (hmarks : ∀ c ∈ marks, c = '#')
    (hne : marks ≠ []) (hrest : ∀ c ∈ rest.head?, c ≠ '#')
    (htext : line.text = indentation ++ marks ++ rest) :
    line.indentation = indentation ∧ hashes line = marks ∧ behind line = rest := by
  obtain ⟨c, others, hcons⟩ := List.exists_cons_of_ne_nil hne
  obtain rfl : c = '#' := hmarks c (by simp [hcons])
  have hhash : Text.isWhitespace '#' = false := by decide
  have hblank : line.isBlank = false := by
    rw [Line.isBlank, htext, hcons]
    simp [hhash]
  have hfound : line.indentation = indentation := by
    rw [Line.indentation, hblank, if_neg Bool.false_ne_true, htext, List.append_assoc,
      List.takeWhile_append_of_pos hindentation, hcons, List.cons_append,
      List.takeWhile_cons_of_neg (by simp [hhash]), List.append_nil]
  have hdrop : line.text.drop line.indentation.length = marks ++ rest := by
    rw [hfound, htext, List.append_assoc, List.drop_left]
  have hpos : ∀ c ∈ marks, (c == '#') = true := fun c hc => beq_iff_eq.mpr (hmarks c hc)
  refine ⟨hfound, ?_, ?_⟩
  · rw [hashes, hdrop, List.takeWhile_append_of_pos hpos]
    cases rest with
    | nil => simp
    | cons d rest => simp [hrest d (by simp)]
  · rw [behind, hdrop, List.dropWhile_append_of_pos hpos]
    cases rest with
    | nil => simp
    | cons d rest => simp [hrest d (by simp)]

theorem reports_eq (ctx : RuleContext) (line : Line) :
    reports ctx line =
      if LacksSpace line then
        let gap := line.contentStart + (hashes line).length
        [ctx.report ⟨line.contentStart, gap⟩ "No space after hash on atx style heading"
          [.insert gap [' ']]]
      else [] := by
  have hbehind : (line.text.drop line.indentation.length).drop (hashes line).length =
      behind line := by
    have hcut : hashes line ++ behind line = line.text.drop line.indentation.length :=
      List.takeWhile_append_dropWhile
    rw [← hcut, List.drop_left]
  have hhashes : ((line.text.drop line.indentation.length).takeWhile (· == '#')).length =
      (hashes line).length := rfl
  simp only [reports, hhashes, hbehind]
  split
  · rename_i hnot
    rw [if_neg fun h => ?_]
    simp [h.plain, h.visible, Nat.not_lt.mpr h.near] at hnot
  · rename_i happlies
    simp only [Bool.or_eq_true, decide_eq_true_eq, not_or, Bool.not_eq_true, Nat.not_lt] at happlies
    obtain ⟨⟨hplain, hvisible⟩, hnear⟩ := happlies
    split
    · rename_i hcount
      rw [if_neg fun h => ?_]
      have hsome := h.some
      have hfew := h.few
      simp only [Bool.or_eq_true, decide_eq_true_eq] at hcount
      omega
    · rename_i hcount
      simp only [Bool.or_eq_true, decide_eq_true_eq] at hcount
      split
      · rename_i hnil
        rw [if_neg fun h => ?_]
        obtain ⟨c, hc, -⟩ := h.glued
        simp [hnil] at hc
      · rename_i next rest hnext
        split
        · rename_i hspace
          rw [if_neg fun h => ?_]
          obtain ⟨c, hc, hglued⟩ := h.glued
          obtain rfl : next = c := by simpa [hnext] using hc
          rw [hspace] at hglued
          cases hglued
        · rename_i hglued
          rw [if_pos ⟨hplain, hvisible, hnear, by omega, by omega, next, by simp [hnext],
            by simpa using hglued⟩]

theorem edits_reports (ctx : RuleContext) (line : Line) :
    (reports ctx line).flatMap (·.edits) = insertions line := by
  rw [reports_eq, insertions]
  split
  · rfl
  · rfl

theorem gap_eq (line : Line) : line.contentStart + (hashes line).length =
    line.start + Text.size (line.indentation ++ hashes line) := by
  rw [Line.contentStart, Line.indentBytes, Text.size_append, Nat.add_assoc, hashes,
    Text.size_takeWhile (fun _ => Text.utf8Size_of_eq_hash)]

theorem turns_insertions (line : Line) :
    Turns line.start line.whole (insertions line) (spaced line ++ line.terminator) := by
  unfold insertions spaced
  split
  · have h : Turns line.start
        (line.indentation ++ hashes line ++ [] ++ (behind line ++ line.terminator))
        [.insert (line.contentStart + (hashes line).length) [' ']]
        (line.indentation ++ hashes line ++ [' '] ++ (behind line ++ line.terminator)) :=
      .edit (gap_eq line) rfl (.done _ _)
    rw [Line.whole, ← text_eq]
    simpa using h
  · exact .done _ _

theorem within_of_mem_insertions {e : Edit} (he : e ∈ insertions line) :
    e.start = e.stop ∧ line.start < e.start ∧ e.start ≤ line.stop := by
  unfold insertions at he
  split at he
  · rename_i hlacks
    obtain rfl := List.mem_singleton.mp he
    have hsome := hlacks.some
    have hgap := gap_eq line
    have hsize := congrArg Text.size (text_eq line)
    rw [Line.contentStart] at hgap
    rw [Text.size_append] at hsize
    simp only [Edit.insert, Line.stop, Line.newlineStart, Line.contentStart, true_and]
    omega
  · cases he

theorem run_rule (hctx : ctx.Views source) : Id.run ((rule : Rule Id).check ctx).run =
    .ok (ctx.snapshot.lines.flatMap (reports ctx)) := by
  rw [List.flatMap_def]
  refine Rule.run_ofSteps ?_
  rw [steps, List.map_map]
  exact congrArg _ (List.map_congr_left fun line hline => findings_eq hctx hline)

theorem prepareStrictly_reports (hctx : ctx.Views source) :
    ∃ plan, EditPlan.prepareStrictly source
        ((ctx.snapshot.lines.flatMap (reports ctx)).flatMap (·.edits)) = .ok plan ∧
      plan.applyTo? source =
        some (ctx.snapshot.lines.flatMap fun line => spaced line ++ line.terminator) := by
  have hedits : (ctx.snapshot.lines.flatMap (reports ctx)).flatMap (·.edits) =
      ctx.snapshot.lines.flatMap insertions := by
    simp only [List.flatMap_assoc, edits_reports]
  have htiles : Line.Tiles 0 source (ctx.snapshot.lines.map id) := by
    rw [List.map_id]
    exact hctx.tiles
  rw [hedits]
  refine EditPlan.exists_plan_of_insertions htiles (fun line _ => turns_insertions line)
    (fun line _ => ?_) fun line _ e he => within_of_mem_insertions he
  unfold insertions
  split
  · exact List.pairwise_singleton _ _
  · exact .nil

/-- A line that has got its space lacks none, wherever it is. -/
theorem not_lacksSpace_spaced (hplain : line.verbatim = false) (start : Nat) (terminator : Text) :
    ¬ LacksSpace ⟨start, spaced line, terminator, false⟩ := by
  unfold spaced
  split
  · rename_i hlacks
    intro h
    have hindentation (c : Char) (hc : c ∈ line.indentation) : Text.isWhitespace c = true :=
      Line.isWhitespace_of_mem_indentation hc
    have hrest : ∀ c ∈ (' ' :: behind line).head?, c ≠ '#' := by simp
    obtain ⟨-, -, hbehind⟩ := parts_of_text hindentation (fun _ => eq_hash_of_mem_hashes)
      (List.ne_nil_of_length_pos hlacks.some) hrest
      (rfl : Line.text ⟨start, _, terminator, false⟩ = _)
    obtain ⟨c, hc, hglued⟩ := h.glued
    rw [hbehind] at hc
    obtain rfl : ' ' = c := by simpa using hc
    exact absurd hglued (by decide)
  · rename_i hnot
    exact fun h => hnot ⟨hplain, h.visible, h.near, h.some, h.few, h.glued⟩

theorem not_mem_spaced (h : '\n' ∉ line.text) : '\n' ∉ spaced line := by
  unfold spaced
  split
  · rw [← text_eq] at h
    simpa using h
  · exact h

theorem getLast?_spaced (line : Line) : (spaced line).getLast? = line.text.getLast? := by
  unfold spaced
  split
  · rename_i hlacks
    obtain ⟨c, hc, -⟩ := hlacks.glued
    obtain ⟨rest, hrest⟩ := List.head?_eq_some_iff.mp hc
    conv_rhs => rw [← text_eq, hrest]
    rw [hrest]
    simp
  · rfl

theorem settles {rule : ActiveRule Id} (hrule : rule.rule = HashSpace.rule) (source : Text) :
    rule.Settles source
      ((Line.ofText source).flatMap fun line => spaced line ++ line.terminator) := by
  refine .of_lines (fun ctx => ctx.snapshot.lines.flatMap (reports ctx)) (fun s _ hs => ?_)
    (fun ctx hctx hlines => ?_) fun ctx _ hlines => ?_
  · rw [ActiveRule.check, hrule]
    exact run_rule hs
  · rw [← hlines]
    exact prepareStrictly_reports hctx
  · refine List.flatMap_eq_nil_iff.mpr fun line hline => ?_
    rw [hlines] at hline
    obtain ⟨k, hk, start, rfl⟩ := Line.exists_of_mem_ofText_flatMap
      (fun l hl => not_mem_spaced (Line.ends_of_mem_ofText hl).not_mem_text)
      (fun l hl hlf => getLast?_spaced l ▸ (Line.ends_of_mem_ofText hl).getLast?_text_ne hlf) hline
    have hnone := not_lacksSpace_spaced (Line.verbatim_of_mem_ofText hk) start k.terminator
    rw [reports_eq, if_neg hnone]

end Tidymark.Rules.HashSpace
