import Tidymark.Proofs.Edit.Linewise
import Tidymark.Proofs.Line.Pieces
import Tidymark.Proofs.Line.Position
import Tidymark.Proofs.Rule.Fixing
import Tidymark.Proofs.Rules.HeadingReference
import Tidymark.Proofs.Rules.Proposals

/-! # The end of headings after a fix

Where the headings are lines with hashes in front, the fix of the rule for their ends takes out
punctuation line by line. What it leaves of a heading may end in punctuation again: the blanks that
stood before the punctuation end the text now, and are no part of it. -/
namespace Tidymark.Rules.HeadingPunctuation

open EditPlan (Turns)
open Text (isWhitespace isSpaceOrTab trimEndBy)

/-- The headings of the tree are the lines that are not blank, each from its start on. -/
def FindsLines (s : Snapshot) : Prop :=
  List.Forall₂ (fun heading line => heading.setext = false ∧ heading.span.start = line.start)
    s.headings (s.lines.filter fun line => !line.isBlank)

/-- The line of a heading without the punctuation at the end of its text. -/
def repair (forbidden text : Text) : Text :=
  if isCut forbidden (content text) then
    trimEndBy forbidden.contains (content text) ++ text.drop (content text).length
  else text

def fixed (forbidden source : Text) : Text :=
  (Line.ofText source).flatMap fun line => repair forbidden line.text ++ line.terminator

/-- Whether hashes, behind a space or a tab, close the line of a heading. -/
def isClosed (text : Text) : Bool :=
  let text := trimEndBy isWhitespace text
  let unclosed := trimEndBy (· == '#') text
  unclosed.length < text.length && unclosed.getLast?.any isSpaceOrTab

/-- What the next look takes for the text of a heading whose punctuation is taken out. Closing hashes
stay what they are; without them, hashes before the punctuation become closing ones. -/
def exposed (forbidden text : Text) : Text :=
  let kept := trimEndBy forbidden.contains (content text)
  if isClosed text then trimEndBy isWhitespace kept else content kept

/-- Whether the end of a heading is taken out and the next end is to be taken out again. -/
def relapses (forbidden text : Text) : Bool :=
  isCut forbidden (content text) && isCut forbidden (exposed forbidden text)

variable {ctx : RuleContext} {forbidden source t ws body hashes : Text} {line : Line}
variable {heading : Heading} {lines : List Line}

theorem content_eq (t : Text) :
    content t = if isClosed t then
      trimEndBy isWhitespace (trimEndBy (· == '#') (trimEndBy isWhitespace t))
    else trimEndBy isWhitespace t := rfl

theorem content_append (hws : ∀ c ∈ ws, isWhitespace c = true) : content (t ++ ws) = content t := by
  simp only [content, Text.trimEndBy_append_of_forall t hws]

/-- Hashes behind a space or a tab close a heading. -/
theorem content_closed (hbody : ∃ c ∈ body.getLast?, isSpaceOrTab c = true)
    (hhashes : ∀ c ∈ hashes, c = '#') (hne : hashes ≠ []) :
    content (body ++ hashes) = trimEndBy isWhitespace body := by
  obtain ⟨c, hc, hblank⟩ := hbody
  have htrimmed : trimEndBy isWhitespace (body ++ hashes) = body ++ hashes := by
    refine Text.trimEndBy_eq_self_iff.mpr fun d hd => ?_
    rw [List.getLast?_append_of_ne_nil _ hne] at hd
    rw [hhashes d (List.mem_of_getLast? hd)]
    decide
  have hunclosed : trimEndBy (· == '#') (body ++ hashes) = body := by
    refine Text.trimEndBy_append (fun d hd => ?_) (fun d hd => by simp [hhashes d hd])
    obtain rfl : c = d := Option.some.inj (hc.symm.trans hd)
    rw [beq_eq_false_iff_ne]
    rintro rfl
    cases hblank
  have hclosed : isClosed (body ++ hashes) = true := by
    have hc : body.getLast? = some c := hc
    have hpos := List.length_pos_iff.mpr hne
    simp [isClosed, htrimmed, hunclosed, hc, hblank, hpos]
  rw [content_eq, if_pos hclosed, htrimmed, hunclosed]

/-- Behind the content of a closed heading stand blanks, hashes, and white space. -/
theorem exists_split_of_isClosed (h : isClosed t = true) :
    ∃ gap hashes ws, t = content t ++ (gap ++ hashes ++ ws) ∧
      (∃ c ∈ gap.getLast?, isSpaceOrTab c = true) ∧ (∀ c ∈ gap, isWhitespace c = true) ∧
      (∀ c ∈ hashes, c = '#') ∧ hashes ≠ [] ∧ ∀ c ∈ ws, isWhitespace c = true := by
  rw [content_eq, if_pos h]
  obtain ⟨ws, ht, hws⟩ := Text.exists_eq_trimEndBy_append isWhitespace t
  obtain ⟨hashes, htrimmed, hhashes⟩ :=
    Text.exists_eq_trimEndBy_append (· == '#') (trimEndBy isWhitespace t)
  simp only [isClosed, Bool.and_eq_true, decide_eq_true_eq, Option.any_eq_true] at h
  obtain ⟨hlt, c, hc, hblank⟩ := h
  generalize trimEndBy (· == '#') (trimEndBy isWhitespace t) = body at hc hlt htrimmed ⊢
  obtain ⟨gap, hbody, hgap⟩ := Text.exists_eq_trimEndBy_append isWhitespace body
  have hgapNe : gap ≠ [] := by
    rintro rfl
    rw [List.append_nil] at hbody
    have hplain := Text.trimEndBy_eq_self_iff.mp hbody.symm c hc
    rw [Text.isWhitespace_of_isSpaceOrTab hblank] at hplain
    cases hplain
  refine ⟨gap, hashes, ws, ?_, ⟨c, ?_, hblank⟩, hgap, by simpa using hhashes, ?_, hws⟩
  · rw [← List.append_assoc, ← List.append_assoc, ← hbody, ← htrimmed, ← ht]
  · rw [hbody, List.getLast?_append_of_ne_nil _ hgapNe] at hc
    exact hc
  · rintro rfl
    rw [List.append_nil] at htrimmed
    rw [htrimmed] at hlt
    omega

/-- What the next look finds where punctuation was taken out. -/
theorem content_repair (hcut : isCut forbidden (content t) = true) :
    content (repair forbidden t) = exposed forbidden t := by
  have hrest := List.prefix_iff_eq_append.mp (content_isPrefix t)
  rw [repair, if_pos hcut, exposed]
  generalize t.drop (content t).length = rest at hrest ⊢
  by_cases hclosed : isClosed t = true
  · rw [if_pos hclosed]
    obtain ⟨gap, hashes, ws, ht, ⟨c, hc, hblank⟩, hgap, hhashes, hne, hws⟩ :=
      exists_split_of_isClosed hclosed
    obtain rfl := List.append_cancel_left (hrest.trans ht)
    have hlast (kept : Text) : ∃ c ∈ (kept ++ gap).getLast?, isSpaceOrTab c = true := by
      refine ⟨c, ?_, hblank⟩
      rw [List.getLast?_append_of_ne_nil _ (List.ne_nil_of_mem (List.mem_of_getLast? hc))]
      exact hc
    rw [← List.append_assoc, ← List.append_assoc, content_append hws,
      content_closed (hlast _) hhashes hne, Text.trimEndBy_append_of_forall _ hgap]
  · rw [if_neg hclosed]
    refine content_append ?_
    rw [content_eq, if_neg hclosed] at hrest
    obtain ⟨ws, ht, hws⟩ := Text.exists_eq_trimEndBy_append isWhitespace t
    obtain rfl : ws = rest := List.append_cancel_left (ht.symm.trans hrest.symm)
    exact hws

theorem isCut_content_repair (forbidden t : Text) :
    isCut forbidden (content (repair forbidden t)) = relapses forbidden t := by
  by_cases hcut : isCut forbidden (content t) = true
  · rw [content_repair hcut, relapses, hcut, Bool.true_and]
  · rw [repair, if_neg hcut, relapses, Bool.eq_false_iff.mpr hcut, Bool.false_and]

theorem isCut_nil (forbidden : Text) : isCut forbidden (content []) = false := rfl

theorem isCut_of_blank (h : line.isBlank = true) : isCut forbidden (content line.text) = false := by
  have hnil : content ([] ++ line.text) = content [] := content_append (List.all_eq_true.mp h)
  rw [List.nil_append] at hnil
  rw [hnil, isCut_nil]

theorem repair_sublist (forbidden t : Text) : (repair forbidden t).Sublist t := by
  unfold repair
  split
  · have hrest := List.prefix_iff_eq_append.mp (content_isPrefix t)
    conv_rhs => rw [← hrest]
    exact (Text.trimEndBy_isPrefix _ _).sublist.append (List.Sublist.refl _)
  · exact List.Sublist.refl t

theorem turns_cuts (forbidden : Text) (line : Line) :
    Turns line.start line.whole (cuts forbidden ⟨line.start, content line.text⟩)
      (repair forbidden line.text ++ line.terminator) := by
  unfold cuts repair
  by_cases hcut : isCut forbidden (content line.text) = true
  · rw [if_pos hcut, if_pos hcut]
    have hrest := List.prefix_iff_eq_append.mp (content_isPrefix line.text)
    have h := EditPlan.turns_trimEndBy forbidden.contains line.start (content line.text)
      (line.text.drop (content line.text).length ++ line.terminator)
    rw [← List.append_assoc, ← List.append_assoc, hrest] at h
    exact h
  · rw [if_neg hcut, if_neg hcut]
    exact .done _ _

theorem isDeletion_of_mem_cuts {p : Passage} {e : Edit} (h : e ∈ cuts forbidden p) :
    e.isDeletion = true := by
  unfold cuts at h
  split at h
  · rename_i hcut
    obtain rfl := List.mem_singleton.mp h
    simp only [isCut, Bool.and_eq_true, bne_iff_ne] at hcut
    exact isDeletion_of_trimEndBy hcut.1
  · cases h

/-- What is reported of the lines of a text, each taken for a heading. -/
def reportsOf (ctx : RuleContext) (forbidden : Text) (lines : List Line) : List Diagnostic :=
  lines.flatMap fun line => reports ctx forbidden ⟨line.start, content line.text⟩

theorem edits_reportsOf (ctx : RuleContext) (forbidden : Text) (lines : List Line) :
    (reportsOf ctx forbidden lines).flatMap (·.edits) =
      lines.flatMap fun line => cuts forbidden ⟨line.start, content line.text⟩ := by
  simp only [reportsOf, List.flatMap_assoc, edits_reports]

theorem countP_reports (ctx : RuleContext) (forbidden : Text) (p : Passage) :
    (reports ctx forbidden p).countP (·.isFixable) = if isCut forbidden p.text then 1 else 0 := by
  unfold reports cuts
  split
  · rfl
  · rfl

theorem countP_reportsOf (ctx : RuleContext) (forbidden : Text) (lines : List Line) :
    (reportsOf ctx forbidden lines).countP (·.isFixable) =
      lines.countP fun line => isCut forbidden (content line.text) := by
  induction lines with
  | nil => rfl
  | cons line lines ih =>
    rw [reportsOf, List.flatMap_cons, List.countP_append, ← reportsOf, ih, countP_reports,
      List.countP_cons, Nat.add_comm]

theorem reportsOf_filter (ctx : RuleContext) (forbidden : Text) (lines : List Line) :
    reportsOf ctx forbidden (lines.filter fun line => !line.isBlank) =
      reportsOf ctx forbidden lines := by
  induction lines with
  | nil => rfl
  | cons line lines ih =>
    rw [reportsOf, reportsOf] at ih ⊢
    by_cases hblank : line.isBlank = true
    · have hnone : reports ctx forbidden ⟨line.start, content line.text⟩ = [] := by
        rw [reports, cuts, isCut_of_blank hblank]
        rfl
      rw [List.filter_cons_of_neg (by simp [hblank]), ih, List.flatMap_cons, hnone,
        List.nil_append]
    · rw [List.filter_cons_of_pos (by simp [hblank]), List.flatMap_cons, ih, List.flatMap_cons]

/-- A heading that starts where a line does has the text of this line. -/
theorem isTextOf_of_line (hctx : ctx.Views source) (hheading : heading ∈ ctx.snapshot.headings)
    (hline : line ∈ ctx.snapshot.lines) (hne : line.isBlank = false)
    (hsetext : heading.setext = false) (hstart : heading.span.start = line.start) :
    IsTextOf ctx heading ⟨line.start, content line.text⟩ := by
  obtain ⟨before, after, hlines⟩ := List.append_of_mem hline
  have hlt : line.start < line.stop := by
    have htext : line.text ≠ [] := by
      intro hnil
      simp [Line.isBlank, hnil] at hne
    have hpos := Text.size_pos_of_ne_nil htext
    simp only [Line.stop, Line.newlineStart]
    omega
  have hindex : heading.line = before.length := by
    rw [hctx.line_eq hheading, hstart, Snapshot.lineIndex, hlines]
    exact Line.indexAt_split (hlines ▸ hctx.tiles) (Nat.le_refl _) hlt
  refine ⟨line, line.text, ?_, ?_, ?_, ?_⟩
  · rw [textLine, hsetext, if_neg (by decide), hindex, RuleContext.line, hlines]
    simp
  · rw [hstart, Nat.max_self]
  · have hslice : source.slice? line.start line.newlineStart = some line.text :=
      hctx.tiles.slice_of_mem (p := []) hline rfl rfl rfl
    rw [RuleContext.slice, hctx.source_eq, hslice]
  · rw [hsetext, if_neg (by decide)]

theorem map_findings (forbidden : Text) {headings : List Heading} (hctx : ctx.Views source)
    (h : List.Forall₂
      (fun heading line => heading.setext = false ∧ heading.span.start = line.start) headings lines)
    (hheadings : ∀ heading ∈ headings, heading ∈ ctx.snapshot.headings)
    (hlines : ∀ line ∈ lines, line ∈ ctx.snapshot.lines ∧ line.isBlank = false) :
    headings.map (findings ctx forbidden) =
      lines.map fun line => .ok (reports ctx forbidden ⟨line.start, content line.text⟩) := by
  induction h with
  | nil => rfl
  | @cons heading line headings lines hstart tail ih =>
    obtain ⟨hline, hne⟩ := hlines line (by simp)
    have htext := isTextOf_of_line hctx (hheadings heading (by simp)) hline hne hstart.1 hstart.2
    rw [List.map_cons, List.map_cons, findings_of_isTextOf htext,
      ih (fun h hh => hheadings h (by simp [hh])) fun l hl => hlines l (by simp [hl])]

/-- All that the rule reports of a text whose headings are its lines. -/
theorem run_rule_of_lines (hctx : ctx.Views source)
    (hoption : ctx.stringOption "punctuation" defaultPunctuation = .ok defaultPunctuation)
    (hfinds : FindsLines ctx.snapshot) :
    Id.run ((rule : Rule Id).check ctx).run =
      .ok (reportsOf ctx defaultPunctuation.toList ctx.snapshot.lines) := by
  rw [← reportsOf_filter, reportsOf, List.flatMap_def]
  refine Rule.run_ofSteps ?_
  have hsteps := map_findings defaultPunctuation.toList hctx hfinds
    (fun _ hheading => hheading) fun line hline => by simpa using hline
  rw [steps, hoption, List.map_map]
  exact congrArg Except.ok hsteps

section
variable (hopen : ∀ line ∈ Line.ofText source, line.isBlank = true ∨ '\r' ∉ line.text)
include hopen

theorem ofPiece_repair (forbidden : Text) (hline : line ∈ Line.ofText source) (start : Nat) :
    Line.ofPiece start (repair forbidden line.text ++ line.terminator) =
      ⟨start, repair forbidden line.text, line.terminator, false⟩ := by
  have hends := Line.ends_of_mem_ofText hline
  have hsub := repair_sublist forbidden line.text
  refine hends.ofPiece_eq start (fun h => hends.not_mem_text (hsub.subset h)) fun hlf => ?_
  rcases hopen line hline with hblank | hplain
  · rw [repair, isCut_of_blank hblank]
    exact hends.getLast?_text_ne hlf
  · intro hlast
    exact hplain (hsub.subset (List.mem_of_getLast? hlast))

/-- A second look takes out something where the first one relapses. -/
theorem countP_fixed (forbidden : Text) :
    (Line.ofText (fixed forbidden source)).countP (fun line => isCut forbidden (content line.text)) =
      (Line.ofText source).countP fun line => relapses forbidden line.text := by
  have hclosed : Line.Closed ((Line.ofText source).map fun line =>
      repair forbidden line.text ++ line.terminator) := by
    refine (Line.closed_pieces source).map_layOut (List.map_id _) fun line hline => ?_
    have hsub := repair_sublist forbidden line.text
    exact fun h => (Line.ends_of_mem_ofText hline).not_mem_text (hsub.subset h)
  rw [Line.ofText, fixed, List.flatMap_def, hclosed.pieces_flatten,
    Line.countP_layOut 0 _ fun t => isCut forbidden (content t), List.countP_filter,
    List.countP_map]
  refine List.countP_congr fun line hline => ?_
  have hpiece := ofPiece_repair hopen forbidden hline 0
  simp only [Function.comp_apply, hpiece, isCut_content_repair, Bool.and_eq_true,
    decide_eq_true_eq, and_iff_left_iff_imp]
  intro hrelapses hnil
  rw [← isCut_content_repair, (List.append_eq_nil_iff.mp hnil).1, isCut_nil] at hrelapses
  cases hrelapses

end

/-- The edits for the lines of a text make up a plan, which repairs them. -/
theorem prepareStrictly_reportsOf (ctx : RuleContext) (forbidden source : Text) :
    ∃ plan, EditPlan.prepareStrictly source
        ((reportsOf ctx forbidden (Line.ofText source)).flatMap (·.edits)) = .ok plan ∧
      plan.applyTo? source = some (fixed forbidden source) := by
  rw [edits_reportsOf]
  exact EditPlan.exists_plan_of_tiles ((List.map_id _).symm ▸ Line.tiles_ofText source)
    (fun line _ => turns_cuts forbidden line)
    fun line _ e he => (Edit.isDeletion_iff.mp (isDeletion_of_mem_cuts he)).1

theorem reportsOf_ofTree (ctx : RuleContext) (forbidden : Text) (path : String) (source : Text)
    (root : Node) : reportsOf ctx forbidden (Snapshot.ofTree path source root).lines =
      reportsOf ctx forbidden (Line.ofText source) := by
  simp only [reportsOf, Snapshot.ofTree, Snapshot.markVerbatim, List.flatMap_map]

variable {rule : ActiveRule Id} {parser : Parser Id} {root root' : Node}

theorem run_lint_of_lines (hrule : rule.rule = HeadingPunctuation.rule)
    (hoption : ∀ s, (rule.context s).stringOption "punctuation" defaultPunctuation =
      .ok defaultPunctuation)
    (hroot : parser source = .ok root) (hfinds : FindsLines (.ofTree "<idempotency>" source root)) :
    Id.run (rule.lint parser source).run = .ok
      (reportsOf (rule.context (.ofTree "<idempotency>" source root)) defaultPunctuation.toList
        (Line.ofText source)) := by
  refine ActiveRule.run_lint hroot ?_
  rw [ActiveRule.check, hrule, ← reportsOf_ofTree _ _ "<idempotency>" source root]
  exact run_rule_of_lines ⟨"<idempotency>", root, rfl⟩ (hoption _) hfinds

/-- Fixing once a text whose lines are its headings, before and after, succeeds if and only if no line
relapses; otherwise as many findings remain as lines do. -/
theorem fixOnce_eq (hrule : rule.rule = HeadingPunctuation.rule)
    (hoption : ∀ s, (rule.context s).stringOption "punctuation" defaultPunctuation =
      .ok defaultPunctuation)
    (hopen : ∀ line ∈ Line.ofText source, line.isBlank = true ∨ '\r' ∉ line.text)
    (hroot : parser source = .ok root) (hfinds : FindsLines (.ofTree "<idempotency>" source root))
    (hroot' : parser (fixed defaultPunctuation.toList source) = .ok root')
    (hfinds' : FindsLines
      (.ofTree "<idempotency>" (fixed defaultPunctuation.toList source) root')) :
    let fixed := fixed defaultPunctuation.toList source
    let relapsed :=
      (Line.ofText source).countP fun line => relapses defaultPunctuation.toList line.text
    Id.run (rule.fixOnce parser source).run =
      if 0 < relapsed then .error (.remaining relapsed fixed) else .ok fixed := by
  intro fixed relapsed
  have hfound := run_lint_of_lines hrule hoption hroot hfinds
  have hrest := run_lint_of_lines hrule hoption hroot' hfinds'
  obtain ⟨plan, hplan, hfixed⟩ := prepareStrictly_reportsOf
    (rule.context (.ofTree "<idempotency>" source root)) defaultPunctuation.toList source
  rw [ActiveRule.run_fixOnce hfound hplan hfixed hrest, countP_reportsOf, countP_fixed hopen]

/-- One heading is closed by hashes, and a blank line stands between the two. -/
theorem fixOnce_eq_two :
    let rule : ActiveRule Id := .ofRule HeadingPunctuation.rule
    let source : Text := ['#', ' ', 'a', '.', '\n', '\n', '#', ' ', 'b', ':', ' ', '#', '\n']
    let fixed : Text := ['#', ' ', 'a', '\n', '\n', '#', ' ', 'b', ' ', '#', '\n']
    Id.run (rule.fixOnce Parser.markdown source).run = .ok fixed := by
  intro rule source fixed
  have hfixed : HeadingPunctuation.fixed defaultPunctuation.toList source = fixed := by
    rw [toList_defaultPunctuation]
    decide
  have hroot : Markdown.parse source = .branch .root ⟨0, 13⟩
      [.mk .heading ⟨0, 4⟩ [.literal .text ⟨2, 4⟩ ['a', '.']] none (.heading 1 false),
        .mk .heading ⟨6, 12⟩ [.literal .text ⟨8, 10⟩ ['b', ':']] none (.heading 1 false)] := by
    cbv
  have hroot' : Markdown.parse fixed = .branch .root ⟨0, 11⟩
      [.mk .heading ⟨0, 3⟩ [.literal .text ⟨2, 3⟩ ['a']] none (.heading 1 false),
        .mk .heading ⟨5, 10⟩ [.literal .text ⟨7, 8⟩ ['b']] none (.heading 1 false)] := by
    cbv
  have hoption : ∀ s, (rule.context s).stringOption "punctuation" defaultPunctuation =
      .ok defaultPunctuation := fun _ => rfl
  have h := fixOnce_eq rfl hoption (by decide)
    (Parser.markdown_eq_ok hroot (by decide)) (.cons ⟨rfl, rfl⟩ (.cons ⟨rfl, rfl⟩ .nil))
    (Parser.markdown_eq_ok (hfixed ▸ hroot') (by rw [hfixed]; decide))
    (by rw [hfixed]; exact .cons ⟨rfl, rfl⟩ (.cons ⟨rfl, rfl⟩ .nil))
  rw [hfixed, toList_defaultPunctuation] at h
  exact h

/-- The period that is taken out leaves a blank, and another period in front of it. -/
theorem fixOnce_period_blank_period :
    let rule : ActiveRule Id := .ofRule HeadingPunctuation.rule
    let source : Text := ['#', ' ', 'a', '.', ' ', '.', '\n']
    let fixed : Text := ['#', ' ', 'a', '.', ' ', '\n']
    FindsLines (.ofTree "<idempotency>" source (Markdown.parse source)) ∧
      FindsLines (.ofTree "<idempotency>" fixed (Markdown.parse fixed)) ∧
      Id.run (rule.fixOnce Parser.markdown source).run = .error (.remaining 1 fixed) := by
  intro rule source fixed
  let root : Node := .branch .root ⟨0, 7⟩
    [.mk .heading ⟨0, 6⟩ [.literal .text ⟨2, 6⟩ ['a', '.', ' ', '.']] none (.heading 1 false)]
  let root' : Node := .branch .root ⟨0, 6⟩
    [.mk .heading ⟨0, 5⟩ [.literal .text ⟨2, 4⟩ ['a', '.']] none (.heading 1 false)]
  have hroot : Markdown.parse source = root := by cbv
  have hroot' : Markdown.parse fixed = root' := by cbv
  let report (root : Node) (text : Text) (span : Span) : Diagnostic :=
    (rule.context (.ofTree "<idempotency>" text root)).report span "Punctuation: '.'"
      [.deleteSpan span]
  have hfound : Id.run (rule.lint Parser.markdown source).run = .ok [report root source ⟨5, 6⟩] :=
    ActiveRule.run_lint (Parser.markdown_eq_ok hroot (by decide)) (by cbv)
  have hrest : Id.run (rule.lint Parser.markdown fixed).run = .ok [report root' fixed ⟨3, 4⟩] :=
    ActiveRule.run_lint (Parser.markdown_eq_ok hroot' (by decide)) (by cbv)
  refine ⟨?_, ?_, ?_⟩
  · rw [hroot]
    exact .cons ⟨rfl, rfl⟩ .nil
  · rw [hroot']
    exact .cons ⟨rfl, rfl⟩ .nil
  · have hplan : EditPlan.prepareStrictly source
        ([report root source ⟨5, 6⟩].flatMap (·.edits)) = .ok ⟨[⟨5, 6, []⟩], [], 0⟩ := by cbv
    rw [ActiveRule.run_fixOnce hfound hplan (by decide) hrest]
    rfl

end Tidymark.Rules.HeadingPunctuation
