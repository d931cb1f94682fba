import Mathlib.Data.List.DropRight
import Tidymark.Proofs.Edit.Linewise
import Tidymark.Proofs.Line.Block
import Tidymark.Proofs.Line.Neighbours
import Tidymark.Proofs.Line.Pieces
import Tidymark.Proofs.Rule.Fixing
import Tidymark.Rules.FinalNewline

/-! # The newline at the end is put in order

What the fix of the rule for the newline at the end makes of a text of prose: it ends behind its last
line that is not blank. This line may end in a carriage return, which the line feed joins then; but it
stays the last line, and no more blank than it was. -/
namespace Tidymark.Rules.FinalNewline

open EditPlan (Turns)

/-- The source up to its last line that is not blank, ended by a newline. A source of blank lines
stays. -/
def ended (source : Text) : Text :=
  let lines := (Line.ofText source).rdropWhile (·.isBlank)
  match lines.getLast? with
  | none => source
  | some last => lines.flatMap Line.whole ++ if last.hasNewline then [] else ['\n']

/-- The last line of the text that is not blank, with the lines around it. -/
structure EndsAt (source : Text) (before : List Line) (last : Line) (after : List Line) : Prop where
  lines : Line.ofText source = before ++ last :: after
  visible : last.isBlank = false
  blank : ∀ l ∈ after, l.isBlank = true

def findingsOf (ctx : RuleContext) (lines : List Line) : List Diagnostic :=
  (untilContent lines.reverse).flatMap (findings ctx)

variable {ctx : RuleContext} {source : Text} {before after lines : List Line} {last : Line}

theorem ended_cases (source : Text) :
    ((∀ l ∈ Line.ofText source, l.isBlank = true) ∧ ended source = source) ∨
      ∃ before last after, EndsAt source before last after ∧ ended source =
        before.flatMap Line.whole ++ (last.whole ++ if last.hasNewline then [] else ['\n']) := by
  have hcut : (Line.ofText source).rdropWhile (·.isBlank) ++
      (Line.ofText source).rtakeWhile (·.isBlank) = Line.ofText source :=
    List.rdropWhile_append_rtakeWhile
  have hblank : ∀ l ∈ (Line.ofText source).rtakeWhile (·.isBlank), l.isBlank = true :=
    fun l hl => List.mem_rtakeWhile_imp hl
  rcases List.eq_nil_or_concat' ((Line.ofText source).rdropWhile (·.isBlank)) with
    hnone | ⟨before, last, hkept⟩
  · rw [hnone, List.nil_append] at hcut
    exact .inl ⟨hcut ▸ hblank, by simp [ended, hnone]⟩
  · have hvisible := List.rdropWhile_last_not (·.isBlank) (Line.ofText source) (by simp [hkept])
    simp only [hkept, List.getLast_append_singleton, Bool.not_eq_true] at hvisible
    rw [hkept, List.append_assoc] at hcut
    exact .inr ⟨before, last, _, ⟨hcut.symm, hvisible, hblank⟩, by simp [ended, hkept]⟩

theorem untilContent_append (hafter : ∀ l ∈ after, isContent l = false) (rest : List Line) :
    untilContent (after ++ rest) = after ++ untilContent rest := by
  induction after with
  | nil => rfl
  | cons line after ih =>
    obtain ⟨hline, hafter⟩ := List.forall_mem_cons.mp hafter
    rw [List.cons_append, untilContent, hline, if_neg Bool.false_ne_true, ih hafter,
      List.cons_append]

theorem findings_of_not_isContent (ctx : RuleContext) (h : isContent last = false) :
    findings ctx last = [] := by
  rw [findings, h]
  rfl

theorem findingsOf_of_blank (ctx : RuleContext) (h : ∀ l ∈ lines, isContent l = false) :
    findingsOf ctx lines = [] := by
  have hlines : untilContent (lines.reverse ++ []) = lines.reverse ++ [] :=
    untilContent_append (by simpa using h) []
  rw [List.append_nil] at hlines
  rw [findingsOf, hlines, List.flatMap_eq_nil_iff]
  exact fun l hl => findings_of_not_isContent ctx (h l (List.mem_reverse.mp hl))

theorem findingsOf_append (ctx : RuleContext) (before : List Line) (hlast : isContent last = true)
    (hafter : ∀ l ∈ after, isContent l = false) :
    findingsOf ctx (before ++ last :: after) = findings ctx last := by
  have hlines : (before ++ last :: after).reverse = after.reverse ++ last :: before.reverse := by
    simp
  have hnone : after.reverse.flatMap (findings ctx) = [] := List.flatMap_eq_nil_iff.mpr fun l hl =>
    findings_of_not_isContent ctx (hafter l (List.mem_reverse.mp hl))
  rw [findingsOf, hlines, untilContent_append (by simpa using hafter), untilContent, hlast,
    if_pos rfl, List.flatMap_append, hnone, List.nil_append, List.flatMap_singleton]

theorem run_rule (ctx : RuleContext) : Id.run ((rule : Rule Id).check ctx).run =
    .ok (findingsOf ctx ctx.snapshot.lines) := by
  rw [findingsOf, List.flatMap_def]
  refine Rule.run_ofSteps ?_
  rw [steps, List.map_map]
  rfl

theorem EndsAt.pieces_eq (hends : EndsAt source before last after) :
    Line.pieces source = before.map Line.whole ++ last.whole :: after.map Line.whole := by
  have hwhole := congrArg (List.map Line.whole) hends.lines
  rw [Line.ofText, Line.map_whole_layOut] at hwhole
  rw [hwhole, List.map_append, List.map_cons]

theorem EndsAt.mem (hends : EndsAt source before last after) : last ∈ Line.ofText source := by
  simp [hends.lines]

/-- Behind a line without a newline there is none. -/
theorem EndsAt.after_eq_nil (hends : EndsAt source before last after)
    (hopen : last.hasNewline = false) : after = [] := by
  have hborder := (hends.pieces_eq ▸ Line.closed_pieces source).at_border.2
  have hwhole : last.whole = last.text := by
    have hterminator : last.terminator = [] := by simpa [Line.hasNewline] using hopen
    rw [Line.whole, hterminator, List.append_nil]
  exact List.map_eq_nil_iff.mp (hborder (hwhole ▸ (Line.ends_of_mem_ofText hends.mem).not_mem_text))

theorem edits_findings (ctx : RuleContext) (hcontent : isContent last = true) :
    (findings ctx last).flatMap (·.edits) =
      if last.hasNewline then
        if last.stop < ctx.snapshot.source.size then [.delete last.stop ctx.snapshot.source.size]
        else []
      else [.insert ctx.snapshot.source.size ['\n']] := by
  simp only [findings, hcontent, Bool.not_true, Bool.false_eq_true, if_false]
  cases last.hasNewline with
  | false => rfl
  | true =>
    simp only [Bool.not_true, Bool.false_eq_true, if_false, if_true]
    split
    · rfl
    · rfl

theorem prepareStrictly_findings (hctx : ctx.Views source)
    (hends : EndsAt source before last after) :
    ∃ plan, EditPlan.prepareStrictly source ((findings ctx last).flatMap (·.edits)) = .ok plan ∧
      plan.applyTo? source = some
        (before.flatMap Line.whole ++ (last.whole ++ if last.hasNewline then [] else ['\n'])) := by
  have hcontent : isContent last = true := by simp [isContent, hends.visible]
  obtain ⟨a, b, hsource, hstart, ha, hb⟩ := (hends.lines ▸ Line.tiles_ofText source).split
  obtain rfl := ha.eq_flatMap
  rw [List.append_assoc] at hsource
  have hstop : last.stop = 0 + Text.size (before.flatMap Line.whole ++ last.whole) := by
    rw [Line.stop_eq, hstart, Text.size_append, Nat.add_assoc]
  have hsize : source.size = last.stop + b.size := by
    rw [hstop, hsource, ← List.append_assoc, Text.size_append _ b, Nat.zero_add]
  rw [edits_findings ctx hcontent, hctx.source_eq]
  split
  · split
    · have h : Turns 0 (before.flatMap Line.whole ++ last.whole ++ b ++ [])
          [.delete last.stop source.size] (before.flatMap Line.whole ++ last.whole ++ [] ++ []) :=
        .edit hstop hsize (.done _ _)
      simp only [List.append_nil, List.append_assoc, ← hsource] at h ⊢
      exact EditPlan.exists_plan_of_turn h
    · rename_i hlt
      have hnil : b = [] := by
        by_contra hne
        have hpos := Text.size_pos_of_ne_nil hne
        omega
      obtain ⟨hplan, -, happly⟩ :=
        EditPlan.prepareStrictly_of_turns (EditPlan.Turns.done 0 source) (by simp)
      exact ⟨_, hplan, by rw [happly, hsource, hnil]⟩
  · rename_i hopen
    obtain rfl := hends.after_eq_nil (Bool.eq_false_iff.mpr hopen)
    have hnil : b = [] := hb.eq_flatMap
    have h : Turns 0 (source ++ [] ++ []) [.insert source.size ['\n']] (source ++ ['\n'] ++ []) :=
      .edit (Nat.zero_add _).symm rfl (.done _ _)
    simp only [List.append_nil] at h
    have hout : source ++ ['\n'] = before.flatMap Line.whole ++ (last.whole ++ ['\n']) := by
      rw [hsource, hnil, List.append_nil, List.append_assoc]
    rw [← hout]
    exact EditPlan.exists_plan_of_turn h

/-- In what the fix leaves, the last line ends in a newline, and it is not blank. -/
theorem EndsAt.exists_last (hends : EndsAt source before last after) :
    ∃ lines k, k.isBlank = false ∧ k.hasNewline = true ∧ Line.ofText
      (before.flatMap Line.whole ++ (last.whole ++ if last.hasNewline then [] else ['\n'])) =
        lines ++ [k] := by
  obtain ⟨t, ht, hclosing⟩ := (Line.ends_of_mem_ofText hends.mem).exists_closing
  have hvisible : (t ++ ['\n']).all Text.isWhitespace = false := by
    rw [← hclosing, List.all_append, ← Line.isBlank_of_mem_ofText hends.mem, hends.visible,
      Bool.false_and]
  have hclosed : Line.Closed (before.map Line.whole ++ [t ++ ['\n']]) :=
    (hends.pieces_eq ▸ Line.closed_pieces source).concat ht
  have hne : ∀ p ∈ before.map Line.whole ++ [t ++ ['\n']], p ≠ [] := by
    intro p hp
    rcases List.mem_append.mp hp with hp | hp
    · have hmem : p ∈ Line.pieces source := by
        rw [hends.pieces_eq]
        exact List.mem_append_left _ hp
      exact Line.ne_nil_of_mem_pieces hmem
    · obtain rfl := List.mem_singleton.mp hp
      simp
  have hpieces := hclosed.pieces_flatten_eq_self hne
  rw [List.flatten_append, ← List.flatMap_def, List.flatten_singleton] at hpieces
  refine ⟨_, _, (Line.isBlank_ofPiece _ _).trans hvisible, ?_,
    by rw [hclosing, Line.ofText, hpieces, Line.layOut_append]; rfl⟩
  obtain ⟨x, hx, -⟩ := Line.exists_terminator_ofPiece _ t
  rw [Line.hasNewline, hx]
  simp

/-- A last line that ends in a newline, and is not blank, is as it should be. -/
theorem findingsOf_eq_nil (hctx : ctx.Views source) (hlines : ctx.snapshot.lines = lines ++ [last])
    (hvisible : last.isBlank = false) (hnewline : last.hasNewline = true) :
    findingsOf ctx ctx.snapshot.lines = [] := by
  have hcontent : isContent last = true := by simp [isContent, hvisible]
  obtain ⟨a, b, hsource, hstart, -, hb⟩ := (hlines ▸ hctx.tiles).split
  obtain rfl : b = [] := hb.eq_flatMap
  have hstop : ¬ last.stop < source.size := by
    rw [hsource, Line.stop_eq, hstart]
    simp
  rw [hlines, findingsOf_append ctx lines hcontent (by simp), findings, hctx.source_eq, hcontent,
    hnewline, if_neg (by simp), if_neg (by simp), if_neg hstop]

theorem isContent_of_mem_ofText {l : Line} (hl : l ∈ Line.ofText source) :
    isContent l = !l.isBlank := by
  rw [isContent, Line.verbatim_of_mem_ofText hl, Bool.or_false]

theorem findingsOf_ofText_of_blank (ctx : RuleContext)
    (hblank : ∀ l ∈ Line.ofText source, l.isBlank = true) :
    findingsOf ctx (Line.ofText source) = [] :=
  findingsOf_of_blank ctx fun l hl => by rw [isContent_of_mem_ofText hl, hblank l hl, Bool.not_true]

theorem EndsAt.findingsOf_eq (hends : EndsAt source before last after) (ctx : RuleContext) :
    findingsOf ctx (Line.ofText source) = findings ctx last := by
  have hlast : isContent last = true := by
    rw [isContent_of_mem_ofText hends.mem, hends.visible, Bool.not_false]
  have hafter : ∀ l ∈ after, isContent l = false := fun l hl => by
    have hmem : l ∈ Line.ofText source := by simp [hends.lines, hl]
    rw [isContent_of_mem_ofText hmem, hends.blank l hl, Bool.not_true]
  rw [hends.lines, findingsOf_append ctx before hlast hafter]

theorem settles {rule : ActiveRule Id} (hrule : rule.rule = FinalNewline.rule) (source : Text) :
    rule.Settles source (ended source) := by
  refine .of_lines (fun ctx => findingsOf ctx ctx.snapshot.lines) (fun s _ _ => ?_)
    (fun ctx hctx hlines => ?_) fun ctx hctx hlines => ?_
  · rw [ActiveRule.check, hrule]
    exact run_rule (rule.context s)
  · rw [hlines]
    rcases ended_cases source with ⟨hblank, hended⟩ | ⟨before, last, after, hends, hended⟩
    · obtain ⟨hplan, -, happly⟩ :=
        EditPlan.prepareStrictly_of_turns (EditPlan.Turns.done 0 source) (by simp)
      rw [findingsOf_ofText_of_blank ctx hblank, hended]
      exact ⟨_, hplan, happly⟩
    · rw [hends.findingsOf_eq ctx, hended]
      exact prepareStrictly_findings hctx hends
  · rcases ended_cases source with ⟨hblank, hended⟩ | ⟨before, last, after, hends, hended⟩
    · rw [hlines, hended]
      exact findingsOf_ofText_of_blank ctx hblank
    · obtain ⟨lines, k, hvisible, hnewline, hk⟩ := hends.exists_last
      rw [← hended] at hk
      exact findingsOf_eq_nil hctx (hlines.trans hk) hvisible hnewline

end Tidymark.Rules.FinalNewline
