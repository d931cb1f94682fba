import Tidymark.Proofs.Edit.Linewise
import Tidymark.Proofs.Line.Pieces
import Tidymark.Proofs.Rule.Fixing
import Tidymark.Proofs.Rules.Proposals

/-! # Tabs are expanded

What the rule for hard tabs does to a text as a whole. A text is cut into its runs of tabs and the
characters between them, and over such a cut the runs that are reported, and what their edits make of
the text, are read off one after another. In prose no tab is left, so a second look finds nothing. -/
namespace Tidymark.Rules.HardTabs

open EditPlan (Turns)

/-- The text with `width` spaces for each tab. -/
def expandTabs (width : Nat) (t : Text) : Text :=
  t.flatMap fun c => if c = '\t' then List.replicate width ' ' else [c]

/-- The line with its terminator, expanded unless it is verbatim. -/
def expandLine (width : Nat) (line : Line) : Text :=
  if line.verbatim then line.whole else expandTabs width line.whole

/-- The runs of tabs that are reported of a line. -/
def runsOf (line : Line) : List Span :=
  if line.verbatim then [] else tabRuns line.start line.text

/-- The span is a longest run of tabs of the source, on a line that is not verbatim. -/
def IsPlainRun (source : Text) (lines : List Line) (run : Span) : Prop :=
  run.start < run.stop ∧ Text.IsRun (· == '\t') source run.start run.stop ∧
    ∃ line ∈ lines, line.verbatim = false ∧ line.start ≤ run.start ∧ run.stop ≤ line.stop

variable {ctx : RuleContext} {source t : Text} {line : Line} {run : Span} {width offset k : Nat}

/-- A run is a longest one: no tab stands right before it or right behind it. -/
theorem isRun_of_mem_tabRuns (h : run ∈ tabRuns offset t) :
    ∃ i j, run = ⟨offset + i, offset + j⟩ ∧ i < j ∧ Text.IsRun (· == '\t') t i j := by
  induction cut t generalizing offset with
  | nil => cases h
  | @other c t hc tail ih =>
    rw [tabRuns_other hc] at h
    obtain ⟨i, j, rfl, hij, hrun⟩ := ih h
    have hrun := hrun.prepend [c] hij (.inl (by simpa using hc))
    exact ⟨c.utf8Size + i, c.utf8Size + j, by simp [Nat.add_assoc], by omega, hrun⟩
  | @tabs k t hbehind tail ih =>
    have hborder : ∀ c ∈ t.head?, (c == '\t') = false := by
      intro c hc
      rw [beq_eq_false_iff_ne]
      rintro rfl
      exact hbehind hc
    have hsize := size_replicate_tab (k + 1)
    rw [tabRuns_tabs hbehind] at h
    rcases List.mem_cons.mp h with rfl | h
    · refine ⟨0, k + 1, rfl, by omega, [], List.replicate (k + 1) '\t', t, rfl, rfl, ?_, ?_, ?_,
        hborder⟩
      · rw [hsize, Text.size_nil, Nat.zero_add]
      · simp
      · simp
    · obtain ⟨i, j, rfl, hij, hrun⟩ := ih h
      have hrun := hrun.prepend (List.replicate (k + 1) '\t') hij (.inr hborder)
      rw [hsize] at hrun
      exact ⟨k + 1 + i, k + 1 + j, by simp [Nat.add_assoc], by omega, hrun⟩

theorem exists_mem_tabRuns (before behind : Text) (offset : Nat) :
    ∃ run ∈ tabRuns offset (before ++ '\t' :: behind),
      run.start ≤ offset + before.size ∧ offset + before.size < run.stop := by
  generalize ht : before ++ '\t' :: behind = t
  induction cut t generalizing offset before with
  | nil => simp at ht
  | @other c t hc tail ih =>
    rw [tabRuns_other hc]
    cases before with
    | nil =>
      obtain ⟨rfl, -⟩ := List.cons.inj ht
      exact absurd rfl hc
    | cons d before =>
      obtain ⟨rfl, htail⟩ := List.cons.inj ht
      simpa [Nat.add_assoc] using ih before (offset + d.utf8Size) htail
  | @tabs k t hbehind tail ih =>
    rw [tabRuns_tabs hbehind]
    have hsize := size_replicate_tab (k + 1)
    by_cases hlt : before.size < k + 1
    · exact ⟨⟨offset, offset + (k + 1)⟩, by simp, Nat.le_add_right _ _, by simp only; omega⟩
    · obtain ⟨e, rfl, rfl⟩ := Text.exists_append_of_size_le ht.symm (by omega)
      obtain ⟨run, hrun, hstart, hstop⟩ := ih e (offset + (k + 1)) rfl
      rw [Text.size_append, hsize]
      exact ⟨run, List.mem_cons_of_mem _ hrun, by omega, by omega⟩

theorem turns_tabRuns (width offset : Nat) (t : Text) :
    Turns offset t ((tabRuns offset t).map (expand width)) (expandTabs width t) := by
  induction cut t generalizing offset with
  | nil => exact .done _ _
  | @other c t hc tail ih =>
    have hexpand : expandTabs width (c :: t) = [c] ++ expandTabs width t := by
      simp [expandTabs, hc]
    rw [tabRuns_other hc, hexpand]
    have h : Turns offset ([c] ++ t) _ ([c] ++ expandTabs width t) := Turns.prepend (ih _)
    exact h
  | @tabs k t hbehind tail ih =>
    have hexpand : expandTabs width (List.replicate (k + 1) '\t' ++ t) =
        List.replicate ((k + 1) * width) ' ' ++ expandTabs width t := by
      simp [expandTabs, List.flatMap_replicate]
    rw [tabRuns_tabs hbehind, hexpand, List.map_cons]
    have hstop : offset + (k + 1) = offset + Text.size (List.replicate (k + 1) '\t') := by
      rw [size_replicate_tab]
    have htail := ih (offset + (k + 1))
    have h : Turns offset ([] ++ List.replicate (k + 1) '\t' ++ t)
        (expand width ⟨offset, offset + (k + 1)⟩ :: _)
        ([] ++ (expand width ⟨offset, offset + (k + 1)⟩).replacement ++ expandTabs width t) :=
      .edit rfl hstop htail
    simpa [expand, Edit.replaceSpan, Span.length] using h

theorem expandTabs_of_not_mem (width : Nat) (h : '\t' ∉ t) : expandTabs width t = t := by
  induction t with
  | nil => rfl
  | cons c t ih =>
    simp only [List.mem_cons, not_or] at h
    have ih := ih h.2
    simp only [expandTabs] at ih ⊢
    rw [List.flatMap_cons, if_neg (Ne.symm h.1), ih, List.singleton_append]

theorem turns_line (width : Nat) (hterminator : '\t' ∉ line.terminator) :
    Turns line.start line.whole ((runsOf line).map (expand width)) (expandLine width line) := by
  unfold runsOf expandLine
  split
  · exact .done _ _
  · have h := (turns_tabRuns width line.start line.text).append (.done _ line.terminator)
    have hwhole : expandTabs width line.whole = expandTabs width line.text ++ line.terminator := by
      conv_rhs => rw [← expandTabs_of_not_mem width hterminator]
      simp only [Line.whole, expandTabs, List.flatMap_append]
    rw [List.append_nil] at h
    rw [hwhole]
    exact h

theorem reports_eq (ctx : RuleContext) (width : Nat) (line : Line) :
    reports ctx width line = (runsOf line).map fun run =>
      ctx.report run ("Hard tabs: " ++ toString run.length ++ " tab(s)") [expand width run] := by
  unfold reports runsOf
  split
  · rfl
  · rfl

theorem run_rule (hctx : ctx.Views source)
    (hwidth : ctx.countOption "spaces_per_tab" 4 = .ok width) :
    Id.run ((rule : Rule Id).check ctx).run =
      .ok (ctx.snapshot.lines.flatMap (reports ctx width)) := by
  rw [List.flatMap_def]
  refine Rule.run_ofSteps ?_
  rw [steps, hwidth, List.map_map]
  exact congrArg Except.ok (List.map_congr_left fun line hline => findings_eq hctx hline width)

section
variable (ctx : RuleContext) (width : Nat) (lines : List Line)

theorem spans_reports :
    (lines.flatMap (reports ctx width)).map (·.span) = lines.flatMap runsOf := by
  have hspan (run : Span) (message : String) (edits : List Edit) :
      (ctx.report run message edits).span = run := rfl
  simp [List.map_flatMap, reports_eq, Function.comp_def, hspan]

theorem edits_reports :
    (lines.flatMap (reports ctx width)).flatMap (·.edits) =
      lines.flatMap fun line => (runsOf line).map (expand width) := by
  have hedits (run : Span) (message : String) (edits : List Edit) :
      (ctx.report run message edits).edits = edits := rfl
  simp [List.flatMap_assoc, reports_eq, hedits, List.map_eq_flatMap]

end

/-- The lines of a snapshot are those of its source, some of them marked as verbatim. -/
theorem exists_line (hctx : ctx.Views source) (hline : line ∈ ctx.snapshot.lines) :
    ∃ l ∈ Line.ofText source,
      l.start = line.start ∧ l.text = line.text ∧ l.terminator = line.terminator := by
  obtain ⟨path, root, h⟩ := hctx
  obtain ⟨l, hl, rfl⟩ := List.mem_map.mp (h ▸ hline)
  exact ⟨l, hl, rfl, rfl, rfl⟩

theorem tab_not_mem_terminator (hctx : ctx.Views source) (hline : line ∈ ctx.snapshot.lines) :
    '\t' ∉ line.terminator := by
  obtain ⟨l, hl, -, -, hterminator⟩ := exists_line hctx hline
  intro htab
  rcases (Line.ends_of_mem_ofText hl).eq_of_mem_terminator (hterminator ▸ htab) with h | h
  · exact absurd h (by decide)
  · exact absurd h (by decide)

/-- A run of tabs in the text of a line is one in the source. -/
theorem isPlainRun_of_mem_runsOf (hctx : ctx.Views source) (hline : line ∈ ctx.snapshot.lines)
    (h : run ∈ runsOf line) : IsPlainRun source ctx.snapshot.lines run := by
  unfold runsOf at h
  split at h
  · cases h
  · rename_i hplain
    obtain ⟨l, hl, hstart, htext, -⟩ := exists_line hctx hline
    obtain ⟨a, b, hsource, hstart', ha, hb⟩ := Line.exists_around_of_mem_ofText hl
    rw [hstart] at hstart'
    rw [htext] at hsource
    have hwithin : (expand 0 run).Within line := within_expand h
    obtain ⟨hfirst, hlast⟩ : line.start ≤ run.start ∧ run.stop ≤ line.stop := hwithin
    obtain ⟨i, j, rfl, hij, hrun⟩ := isRun_of_mem_tabRuns h
    refine ⟨by simp only; omega, ?_, line, hline, by simpa using hplain, hfirst, hlast⟩
    rw [hsource, hstart']
    refine (hrun.prepend a hij (.inl fun c hc => ?_)).append fun c hc => ?_
    · rw [ha c hc]
      rfl
    · rcases hb c hc with rfl | rfl
      · rfl
      · rfl

/-- A tab on a line stands in the text of the line. -/
theorem exists_split_text {before behind : Text} (hctx : ctx.Views source)
    (hline : line ∈ ctx.snapshot.lines) (hsource : before ++ '\t' :: behind = source)
    (hstart : line.start ≤ before.size) (hstop : before.size < line.stop) :
    ∃ e f : Text, line.text = e ++ '\t' :: f ∧ line.start + e.size = before.size := by
  obtain ⟨a, b, ha, hlineStart⟩ := hctx.exists_around hline
  rw [line.stop_eq] at hstop
  rw [ha, List.append_assoc a, List.append_assoc a] at hsource
  obtain ⟨e, rfl, he⟩ := Text.exists_append_of_size_le hsource.symm (hlineStart ▸ hstart)
  rw [Text.size_append] at hstop ⊢
  obtain ⟨f, hwhole⟩ := Text.exists_split_of_size_lt he.symm (c := line.whole) (by omega)
  by_cases hlt : e.size < line.text.size
  · obtain ⟨f, htext⟩ := Text.exists_split_of_size_lt hwhole.symm hlt
    exact ⟨e, f, htext, by omega⟩
  · obtain ⟨x, rfl, hx⟩ := Text.exists_append_of_size_le hwhole (by omega)
    exact absurd (by simp [hx]) (tab_not_mem_terminator hctx hline)

/-- What is reported are the longest runs of tabs on the lines that are not verbatim. -/
theorem mem_flatMap_runsOf_iff (hctx : ctx.Views source) :
    run ∈ ctx.snapshot.lines.flatMap runsOf ↔ IsPlainRun source ctx.snapshot.lines run := by
  constructor
  · intro h
    obtain ⟨line, hline, h⟩ := List.mem_flatMap.mp h
    exact isPlainRun_of_mem_runsOf hctx hline h
  · rintro ⟨hlt, hrun, line, hline, hplain, hstart, hstop⟩
    obtain ⟨a, r, b, hsource, ha, hr, htabs, -⟩ := id hrun
    cases r with
    | nil =>
      rw [Text.size_nil] at hr
      omega
    | cons c r =>
      obtain rfl : c = '\t' := by simpa using htabs c (by simp)
      have hsource' : a ++ '\t' :: (r ++ b) = source := by simp [hsource]
      obtain ⟨e, f, htext, he⟩ :=
        exists_split_text hctx hline hsource' (by omega) (by omega)
      obtain ⟨found, hfound, hle, hgt⟩ := exists_mem_tabRuns e f line.start
      rw [← htext] at hfound
      have hmem : found ∈ runsOf line := by simpa [runsOf, hplain] using hfound
      obtain ⟨-, hrun', -⟩ := isPlainRun_of_mem_runsOf hctx hline hmem
      obtain ⟨hstart', hstop'⟩ := hrun.eq_of_overlap hrun' (by omega) (by omega)
      obtain rfl : run = found := congrArg₂ Span.mk hstart' hstop'
      exact List.mem_flatMap_of_mem hline hmem

theorem turns_lines (hctx : ctx.Views source) (width : Nat) : Turns 0 source
    (ctx.snapshot.lines.flatMap fun line => (runsOf line).map (expand width))
    (ctx.snapshot.lines.flatMap (expandLine width)) := by
  have htiles : Line.Tiles 0 source (ctx.snapshot.lines.map id) := by
    rw [List.map_id]
    exact hctx.tiles
  exact EditPlan.turns_of_tiles htiles fun line hline =>
    turns_line width (tab_not_mem_terminator hctx hline)

/-- The edits for the lines of a source make up a plan, which expands them. -/
theorem prepareStrictly_reports (hctx : ctx.Views source) (width : Nat) :
    ∃ plan, EditPlan.prepareStrictly source
        ((ctx.snapshot.lines.flatMap (reports ctx width)).flatMap (·.edits)) = .ok plan ∧
      plan.applyTo? source = some (ctx.snapshot.lines.flatMap (expandLine width)) := by
  have hproper : ∀ e ∈ ctx.snapshot.lines.flatMap fun line => (runsOf line).map (expand width),
      e.start ≠ e.stop := by
    intro e he
    obtain ⟨line, hline, he⟩ := List.mem_flatMap.mp he
    obtain ⟨run, hrun, rfl⟩ := List.mem_map.mp he
    exact Nat.ne_of_lt (isPlainRun_of_mem_runsOf hctx hline hrun).1
  obtain ⟨hplan, -, happly⟩ := EditPlan.prepareStrictly_of_turns (turns_lines hctx width) hproper
  exact ⟨_, by rw [edits_reports, hplan], happly⟩

/-- The fix of the rule replaces each tab outside of the verbatim lines by as many spaces as the
options say, and changes nothing else. What the rule reports are the longest runs of these tabs, in
their order. -/
theorem expands_rule (hctx : ctx.Views source)
    (hwidth : ctx.countOption "spaces_per_tab" 4 = .ok width) :
    ∃ found plan, Id.run ((rule : Rule Id).check ctx).run = .ok found ∧
      EditPlan.prepareStrictly source (found.flatMap (·.edits)) = .ok plan ∧
      plan.applyTo? source = some (ctx.snapshot.lines.flatMap (expandLine width)) ∧
      (found.map (·.span)).Pairwise (fun r s => r.stop ≤ s.start) ∧
      ∀ run, run ∈ found.map (·.span) ↔ IsPlainRun source ctx.snapshot.lines run := by
  obtain ⟨plan, hplan, happly⟩ := prepareStrictly_reports hctx width
  have hapart := (turns_lines hctx width).apart
  rw [← List.map_flatMap, List.pairwise_map] at hapart
  refine ⟨_, plan, run_rule hctx hwidth, hplan, happly, ?_, fun run => ?_⟩
  · rw [spans_reports]
    exact hapart
  · rw [spans_reports]
    exact mem_flatMap_runsOf_iff hctx

/-- A letter of two bytes between the runs, and code below them. -/
theorem expands_rule_code :
    let source : Text :=
      ['a', '\t', 'é', '\t', '\t', 'b', '\n', '\t', 'x', '\n', '\t', '\r', '\n']
    let root : Node := .branch .root ⟨0, 14⟩ [.literal .code ⟨8, 10⟩ ['x'] (.code none false)]
    let ctx : RuleContext :=
      ⟨.ofTree "a.md" source root, "MD010", "no-hard-tabs", .error, .obj [("spaces_per_tab", .int 2)]⟩
    ∃ found plan, Id.run ((rule : Rule Id).check ctx).run = .ok found ∧
      EditPlan.prepareStrictly source (found.flatMap (·.edits)) = .ok plan ∧
      plan.applyTo? source = some
        ['a', ' ', ' ', 'é', ' ', ' ', ' ', ' ', 'b', '\n', '\t', 'x', '\n', ' ', ' ', '\r', '\n'] ∧
      (found.map (·.span)).Pairwise (fun r s => r.stop ≤ s.start) ∧
      ∀ run, run ∈ found.map (·.span) ↔ IsPlainRun source ctx.snapshot.lines run := by
  intro source root ctx
  have hwidth : ctx.countOption "spaces_per_tab" 4 = .ok 2 := by rfl
  have hfixed : ctx.snapshot.lines.flatMap (expandLine 2) =
      ['a', ' ', ' ', 'é', ' ', ' ', ' ', ' ', 'b', '\n', '\t', 'x', '\n', ' ', ' ', '\r', '\n'] := by
    rfl
  rw [← hfixed]
  exact expands_rule ⟨"a.md", root, rfl⟩ hwidth

theorem tab_not_mem_expandTabs (width : Nat) (t : Text) : '\t' ∉ expandTabs width t := by
  intro h
  obtain ⟨c, -, hc⟩ := List.mem_flatMap.mp h
  split at hc
  · exact absurd (List.eq_of_mem_replicate hc) (by decide)
  · rename_i hother
    exact hother (List.mem_singleton.mp hc).symm

theorem tabRuns_of_not_mem (h : '\t' ∉ t) (offset : Nat) : tabRuns offset t = [] := by
  induction t generalizing offset with
  | nil => rfl
  | cons c t ih =>
    simp only [List.mem_cons, not_or] at h
    rw [tabRuns_other (Ne.symm h.1), ih h.2]

/-- In a text without tabs there is nothing to report. -/
theorem reports_eq_nil (hctx : ctx.Views source) (hline : line ∈ ctx.snapshot.lines)
    (h : '\t' ∉ source) (width : Nat) : reports ctx width line = [] := by
  obtain ⟨a, b, rfl, -⟩ := hctx.exists_around hline
  have htext : '\t' ∉ line.text := fun htab => h (by simp [htab])
  rw [reports_eq, runsOf, tabRuns_of_not_mem htext, ite_self, List.map_nil]

/-- In prose all tabs are expanded. -/
theorem flatMap_expandLine (width : Nat) (source : Text) :
    (Line.ofText source).flatMap (expandLine width) = expandTabs width source := by
  have hlines : (Line.ofText source).flatMap (expandLine width) =
      (Line.ofText source).flatMap fun line => expandTabs width line.whole :=
    List.flatMap_congr fun line hline => by
      rw [expandLine, Line.verbatim_of_mem_ofText hline]
      rfl
  conv_rhs => rw [(Line.tiles_ofText source).eq_flatMap, expandTabs, List.flatMap_assoc]
  exact hlines

theorem settles {rule : ActiveRule Id} (hrule : rule.rule = HardTabs.rule)
    (hwidth : ∀ s, (rule.context s).countOption "spaces_per_tab" 4 = .ok width) (source : Text) :
    rule.Settles source (expandTabs width source) := by
  refine .of_lines (fun ctx => ctx.snapshot.lines.flatMap (reports ctx width)) (fun s _ hs => ?_)
    (fun ctx hctx hlines => ?_) fun ctx hctx _ => ?_
  · rw [ActiveRule.check, hrule]
    exact run_rule hs (hwidth s)
  · rw [← flatMap_expandLine, ← hlines]
    exact prepareStrictly_reports hctx width
  · exact List.flatMap_eq_nil_iff.mpr fun line hline =>
      reports_eq_nil hctx hline (tab_not_mem_expandTabs width source) width

end Tidymark.Rules.HardTabs
