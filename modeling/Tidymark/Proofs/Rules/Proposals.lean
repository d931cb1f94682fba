import Tidymark.Proofs.Rule.Proposals
import Tidymark.Proofs.Rules.Headings
import Tidymark.Proofs.Rules.Lines

/-! # What each rule proposes

For each rule of the library, what kind of edit it proposes and on which line. The rules for lines
leave lines of code alone; the rules for headings look at the line that the tree leads them to,
whatever it is. -/
namespace Tidymark.Rules

open Text (isSpaceOrTab trimEndBy)

variable {ctx : RuleContext} {source : Text} {line : Line} {heading : Heading}
variable {found : List Diagnostic} {d : Diagnostic} {e : Edit}
variable {m : Type → Type} [Monad m] [LawfulMonad m] [MonadAttach m] [LawfulMonadAttach m]
variable [MonadCancel m]

/-- To delete the end of a text is to delete something, if the text is longer than what is kept. -/
theorem isDeletion_of_trimEndBy {q : Char → Bool} {t : Text} {n : Nat}
    (h : (trimEndBy q t).length ≠ t.length) :
    (Edit.deleteSpan ⟨n + Text.size (trimEndBy q t), n + t.size⟩).isDeletion = true := by
  obtain ⟨s, hs, -⟩ := Text.exists_eq_trimEndBy_append q t
  have hne : s ≠ [] := by
    rintro rfl
    rw [List.append_nil] at hs
    exact h (congrArg List.length hs.symm)
  have hpos := Text.size_pos_of_ne_nil hne
  have hsize := congrArg Text.size hs
  rw [Text.size_append] at hsize
  refine Edit.isDeletion_iff.mpr ⟨?_, rfl⟩
  simp only [Edit.deleteSpan, Edit.replaceSpan]
  omega

namespace TrailingSpaces

theorem edit_of_mem_reports {width : Nat} {next : Option Line}
    (hd : d ∈ reports ctx width line next) (he : e ∈ d.edits) :
    line.verbatim = false ∧ e.Within line ∧ e.isDeletion = true := by
  simp only [reports] at hd
  split at hd
  · cases hd
  · rename_i hnot
    obtain rfl := List.mem_singleton.mp hd
    obtain rfl := List.mem_singleton.mp he
    simp only [Bool.or_eq_true, not_or, List.isEmpty_iff, Bool.not_eq_true] at hnot
    obtain ⟨⟨hplain, hfound⟩, -⟩ := hnot
    refine ⟨hplain, ⟨Nat.le_add_right _ _, Nat.le_add_right _ _⟩, isDeletion_of_trimEndBy ?_⟩
    intro hlen
    rw [trailing, hlen, List.drop_length] at hfound
    exact hfound rfl

theorem proposes_rule : (rule : Rule m).Proposes fun ctx _ e =>
    e.OnPlain ctx.snapshot.lines ∧ e.isDeletion = true := by
  refine Rule.proposes_ofSteps fun ctx source hctx list hlist part hpart d hd e he => ?_
  unfold steps at hlist
  obtain ⟨width, -, hlist⟩ := bind_eq_ok_iff.mp hlist
  obtain rfl := Except.ok.inj hlist
  obtain ⟨⟨line, next⟩, hmem, hpart⟩ := List.mem_map.mp hpart
  have hline := mem_of_mem_withNext hmem
  obtain rfl := Except.ok.inj ((findings_eq hctx hline width next).symm.trans hpart)
  obtain ⟨hplain, hwithin, hdeletes⟩ := edit_of_mem_reports hd he
  exact ⟨⟨line, hline, hplain, hwithin⟩, hdeletes⟩

end TrailingSpaces

namespace HardTabs

/-- What is put in the place of tabs. -/
def expand (width : Nat) (run : Span) : Edit :=
  .replaceSpan run (List.replicate (run.length * width) ' ')

theorem within_expand {width : Nat} {run : Span} (h : run ∈ tabRuns line.start line.text) :
    (expand width run).Within line := by
  obtain ⟨before, tabs, behind, htext, hstart, hstop, -⟩ := holdsTabs_of_mem_tabRuns h
  have hsize := congrArg Text.size htext
  simp only [Text.size_append] at hsize
  simp only [expand, Edit.Within, Edit.replaceSpan, Line.stop, Line.newlineStart]
  omega

theorem apart_tabRuns (offset : Nat) (t : Text) :
    (tabRuns offset t).Pairwise fun r s => r.stop ≤ s.start := by
  induction t generalizing offset with
  | nil => exact .nil
  | cons c t ih =>
    have hrest := ih (offset + c.utf8Size)
    simp only [tabRuns]
    split
    · exact hrest
    · rename_i hc
      obtain rfl : c = '\t' := by simpa using hc
      split
      · exact List.pairwise_singleton _ _
      · rename_i first others hruns
        rw [hruns] at hrest
        obtain ⟨hfirst, hothers⟩ := List.pairwise_cons.mp hrest
        split
        · exact .cons hfirst hothers
        · refine .cons (fun run hrun => ?_) hrest
          obtain ⟨before, -, -, -, hstart, -⟩ := holdsTabs_of_mem_tabRuns (hruns ▸ hrun)
          have hone : '\t'.utf8Size = 1 := rfl
          simp only
          omega

theorem proposes_rule : (rule : Rule m).Proposes fun ctx _ e =>
    ∃ width, ctx.countOption "spaces_per_tab" 4 = .ok width ∧ ∃ line ∈ ctx.snapshot.lines,
      line.verbatim = false ∧ ∃ run ∈ tabRuns line.start line.text, e = expand width run := by
  refine Rule.proposes_ofSteps fun ctx source hctx list hlist part hpart d hd e he => ?_
  obtain ⟨width, hwidth, hlist⟩ := bind_eq_ok_iff.mp hlist
  obtain rfl := Except.ok.inj hlist
  obtain ⟨line, hmem, hpart⟩ := List.mem_map.mp hpart
  obtain rfl := Except.ok.inj ((findings_eq hctx hmem width).symm.trans hpart)
  unfold reports at hd
  split at hd
  · cases hd
  · rename_i hplain
    obtain ⟨run, hrun, rfl⟩ := List.mem_map.mp hd
    exact ⟨width, hwidth, line, hmem, by simpa using hplain, run, hrun, List.mem_singleton.mp he⟩

end HardTabs

namespace BlankRuns

theorem verbatim_of_mem_withPlace {lines : List Line} {before place : Nat}
    (h : (line, place) ∈ withPlace before lines) (hplace : 0 < place) : line.verbatim = false := by
  induction lines generalizing before with
  | nil => cases h
  | cons l lines ih =>
    rcases List.mem_cons.mp h with h | h
    · obtain ⟨rfl, rfl⟩ := Prod.mk.inj h
      split at hplace
      · omega
      · rename_i hplain
        simp only [Bool.or_eq_true, not_or] at hplain
        simpa using hplain.2
    · exact ih h

theorem proposes_rule : (rule : Rule m).Proposes fun ctx _ e =>
    ∃ line ∈ ctx.snapshot.lines, line.verbatim = false ∧ e = .deleteSpan line.span := by
  refine Rule.proposes_ofSteps fun ctx source hctx list hlist part hpart d hd e he => ?_
  obtain ⟨maximum, -, hlist⟩ := bind_eq_ok_iff.mp hlist
  obtain rfl := Except.ok.inj hlist
  obtain ⟨⟨line, place⟩, hmem, hpart⟩ := List.mem_map.mp hpart
  obtain rfl := Except.ok.inj hpart
  unfold findings at hd
  split at hd
  · obtain rfl := List.mem_singleton.mp hd
    exact ⟨line, (of_mem_withPlace hmem).1, verbatim_of_mem_withPlace hmem (by omega),
      List.mem_singleton.mp he⟩
  · cases hd

end BlankRuns

namespace HashSpace

theorem edit_of_mem_reports (hd : d ∈ reports ctx line) (he : e ∈ d.edits) :
    line.verbatim = false ∧ e.Within line ∧ e.start = e.stop := by
  have htext := congrArg Text.size (List.prefix_iff_eq_append.mp line.indentation_isPrefix)
  simp only [reports] at hd
  generalize line.text.drop line.indentation.length = content at hd htext
  have hcontent := congrArg Text.size
    (List.prefix_iff_eq_append.mp (List.takeWhile_prefix (l := content) (· == '#')))
  have hhashes := Text.size_takeWhile (fun _ => Text.utf8Size_of_eq_hash) content
  rw [Text.size_append] at htext hcontent
  split at hd
  · cases hd
  · rename_i hnot
    simp only [Bool.or_eq_true, not_or, Bool.not_eq_true] at hnot
    obtain ⟨⟨hplain, -⟩, -⟩ := hnot
    split at hd
    · cases hd
    · split at hd
      · cases hd
      · split at hd
        · cases hd
        · obtain rfl := List.mem_singleton.mp hd
          obtain rfl := List.mem_singleton.mp he
          refine ⟨hplain, ?_, rfl⟩
          simp only [Edit.Within, Edit.insert, Line.contentStart, Line.indentBytes, Line.stop,
            Line.newlineStart]
          omega

theorem proposes_rule : (rule : Rule m).Proposes fun ctx _ e =>
    e.OnPlain ctx.snapshot.lines ∧ e.start = e.stop := by
  refine Rule.proposes_ofSteps fun ctx source hctx list hlist part hpart d hd e he => ?_
  obtain rfl := Except.ok.inj hlist
  obtain ⟨line, hmem, hpart⟩ := List.mem_map.mp hpart
  obtain rfl := Except.ok.inj ((findings_eq hctx hmem).symm.trans hpart)
  obtain ⟨hplain, hwithin, hinserts⟩ := edit_of_mem_reports hd he
  exact ⟨⟨line, hmem, hplain, hwithin⟩, hinserts⟩

end HashSpace

namespace HashGap

theorem edit_of_findings (hctx : ctx.Views source) (hheading : heading ∈ ctx.snapshot.headings)
    (h : findings ctx heading = .ok found) (hd : d ∈ found) (he : e ∈ d.edits) :
    e.replacement = [' '] ∧ Text.IsRun isSpaceOrTab source e.start e.stop ∧
      ∃ line, ctx.line heading.line = .ok line ∧ e.Within line := by
  unfold findings at h
  split at h
  · obtain rfl := Except.ok.inj h
    cases hd
  · obtain ⟨line, hline, h⟩ := bind_eq_ok_iff.mp h
    obtain ⟨text, htext, h⟩ := bind_eq_ok_iff.mp h
    obtain ⟨found, hfound, h⟩ := bind_eq_ok_iff.mp h
    cases found with
    | none =>
      obtain rfl := Except.ok.inj h
      cases hd
    | some span =>
      obtain rfl := Except.ok.inj h
      obtain rfl := List.mem_singleton.mp hd
      obtain rfl := List.mem_singleton.mp he
      obtain ⟨a, b, hsource, hstart⟩ := hctx.exists_of_slice htext
      have hstop := RuleContext.stop_eq_of_slice htext
      have hline' := RuleContext.getElem?_of_line hline
      rw [hctx.line_eq hheading] at hline'
      have hle := hctx.tiles.start_le_of_indexAt (Nat.zero_le _) hline'
      obtain ⟨before, gap, behind, rfl, hspanStart, hspanStop, hgap, ⟨first, hfirst, hfirst'⟩,
        last, hlast, hlast'⟩ := exists_split_of_gap? hfound
      refine ⟨rfl, ⟨a ++ before, gap, behind ++ b, ?_, ?_, ?_, hgap, ?_, ?_⟩, line, hline, ?_⟩
      · rw [hsource]
        simp only [List.append_assoc]
      · simp only [Edit.replaceSpan, hspanStart, hstart, Text.size_append]
      · simp only [Edit.replaceSpan, hspanStop, hspanStart, hstart, Text.size_append]
      · intro c hc
        rw [List.getLast?_append, Option.mem_def.mp hfirst] at hc
        obtain rfl := Option.some.inj hc
        exact hfirst'
      · intro c hc
        rw [List.head?_append, Option.mem_def.mp hlast] at hc
        obtain rfl := Option.some.inj hc
        exact hlast'
      · simp only [Text.size_append] at hstop
        simp only [Edit.Within, Edit.replaceSpan, Line.stop]
        omega

theorem proposes_rule : (rule : Rule m).Proposes fun ctx source e =>
    e.replacement = [' '] ∧ Text.IsRun isSpaceOrTab source e.start e.stop ∧
      ctx.Targets (fun _ heading => heading.line) e := by
  refine Rule.proposes_ofSteps fun ctx source hctx list hlist part hpart d hd e he => ?_
  obtain rfl := Except.ok.inj hlist
  obtain ⟨heading, hmem, hpart⟩ := List.mem_map.mp hpart
  obtain ⟨hput, hrun, hline⟩ := edit_of_findings hctx hmem hpart hd he
  exact ⟨hput, hrun, heading, hmem, hline⟩

end HashGap

namespace HeadingBlanks

/-- The line that a heading ends on. -/
def lastLine (ctx : RuleContext) (heading : Heading) : Nat :=
  ctx.snapshot.lineIndex (max (heading.span.stop - 1) heading.span.start)

theorem within_insert_start (line : Line) (t : Text) : (Edit.insert line.start t).Within line :=
  ⟨Nat.le_refl _, line.start_le_stop⟩

theorem within_insert_stop (line : Line) (t : Text) : (Edit.insert line.stop t).Within line :=
  ⟨line.start_le_stop, Nat.le_refl _⟩

theorem edit_of_findings (h : findings ctx heading = .ok found) (hd : d ∈ found)
    (he : e ∈ d.edits) :
    e.start = e.stop ∧ ((∃ line, ctx.line heading.line = .ok line ∧ e.Within line) ∨
      ∃ line, ctx.line (lastLine ctx heading) = .ok line ∧ e.Within line) := by
  obtain ⟨first, hfirst, h⟩ := bind_eq_ok_iff.mp h
  obtain ⟨above, -, h⟩ := bind_eq_ok_iff.mp h
  obtain ⟨last, hlast, h⟩ := bind_eq_ok_iff.mp h
  obtain rfl := Except.ok.inj h
  rcases List.mem_append.mp hd with hd | hd
  · unfold findingsAbove at hd
    split at hd
    · cases hd
    · split at hd
      · cases hd
      · obtain rfl := List.mem_singleton.mp hd
        obtain rfl := List.mem_singleton.mp he
        exact ⟨rfl, .inl ⟨first, hfirst, within_insert_start first _⟩⟩
  · unfold findingsBelow at hd
    split at hd
    · obtain rfl := List.mem_singleton.mp hd
      obtain rfl := List.mem_singleton.mp he
      exact ⟨rfl, .inr ⟨last, hlast, within_insert_stop last _⟩⟩
    · cases hd

theorem proposes_rule : (rule : Rule m).Proposes fun ctx _ e =>
    e.start = e.stop ∧ (ctx.Targets (fun _ heading => heading.line) e ∨ ctx.Targets lastLine e) := by
  refine Rule.proposes_ofSteps fun ctx source hctx list hlist part hpart d hd e he => ?_
  obtain rfl := Except.ok.inj hlist
  obtain ⟨heading, hmem, hpart⟩ := List.mem_map.mp hpart
  have hmem := (List.mem_filter.mp hmem).1
  obtain ⟨hinserts, hline⟩ := edit_of_findings hpart hd he
  exact ⟨hinserts, hline.imp (fun h => ⟨heading, hmem, h⟩) fun h => ⟨heading, hmem, h⟩⟩

end HeadingBlanks

namespace HeadingIndent

theorem edit_of_findings (h : findings ctx heading = .ok found) (hd : d ∈ found)
    (he : e ∈ d.edits) :
    e.isDeletion = true ∧ ∃ line, ctx.line heading.line = .ok line ∧ e.Within line := by
  obtain ⟨line, hline, h⟩ := bind_eq_ok_iff.mp h
  split at h
  · obtain rfl := Except.ok.inj h
    cases hd
  · rename_i hindented
    obtain rfl := Except.ok.inj h
    obtain rfl := List.mem_singleton.mp hd
    obtain rfl := List.mem_singleton.mp he
    have hsize := congrArg Text.size (List.prefix_iff_eq_append.mp line.indentation_isPrefix)
    rw [Text.size_append] at hsize
    refine ⟨Edit.isDeletion_iff.mpr ⟨?_, rfl⟩, line, hline, Nat.le_refl _, ?_⟩
    · simp only [Edit.deleteSpan, Edit.replaceSpan, Line.contentStart]
      omega
    · simp only [Edit.deleteSpan, Edit.replaceSpan, Line.contentStart, Line.indentBytes, Line.stop,
        Line.newlineStart]
      omega

theorem proposes_rule : (rule : Rule m).Proposes fun ctx _ e =>
    e.isDeletion = true ∧ ctx.Targets (fun _ heading => heading.line) e := by
  refine Rule.proposes_ofSteps fun ctx source hctx list hlist part hpart d hd e he => ?_
  obtain rfl := Except.ok.inj hlist
  obtain ⟨heading, hmem, hpart⟩ := List.mem_map.mp hpart
  have hmem := (List.mem_filter.mp hmem).1
  obtain ⟨hdeletes, hline⟩ := edit_of_findings hpart hd he
  exact ⟨hdeletes, heading, hmem, hline⟩

end HeadingIndent

namespace HeadingPunctuation

theorem edit_of_findings {forbidden : Text} (h : findings ctx forbidden heading = .ok found)
    (hd : d ∈ found) (he : e ∈ d.edits) :
    e.isDeletion = true ∧
      ∃ line, ctx.line (textLine ctx.snapshot heading) = .ok line ∧ e.Within line := by
  obtain ⟨line, hline, h⟩ := bind_eq_ok_iff.mp h
  obtain ⟨text, htext, h⟩ := bind_eq_ok_iff.mp h
  have hprefix := trimmed_isPrefix heading text
  simp only at h
  generalize (if heading.setext = true then _ else content text) = trimmed at h hprefix
  split at h
  · obtain rfl := Except.ok.inj h
    cases hd
  · rename_i hforbidden
    obtain ⟨named, -, h⟩ := bind_eq_ok_iff.mp h
    split at h
    · obtain rfl := Except.ok.inj h
      cases hd
    obtain ⟨ending, -, h⟩ := bind_eq_ok_iff.mp h
    obtain rfl := Except.ok.inj h
    obtain rfl := List.mem_singleton.mp hd
    obtain rfl := List.mem_singleton.mp he
    obtain ⟨rest, rfl⟩ := hprefix
    have hstop := RuleContext.stop_eq_of_slice htext
    rw [Text.size_append] at hstop
    refine ⟨isDeletion_of_trimEndBy fun hlen => hforbidden ?_, line, hline, ?_, ?_⟩
    · rw [(Text.trimEndBy_isPrefix forbidden.contains trimmed).eq_of_length hlen]
    · simp only [Edit.deleteSpan, Edit.replaceSpan]
      omega
    · simp only [Edit.deleteSpan, Edit.replaceSpan, Line.stop]
      omega

theorem proposes_rule : (rule : Rule m).Proposes fun ctx _ e =>
    e.isDeletion = true ∧ ctx.Targets (fun ctx => textLine ctx.snapshot) e := by
  refine Rule.proposes_ofSteps fun ctx source hctx list hlist part hpart d hd e he => ?_
  obtain ⟨s, -, hlist⟩ := bind_eq_ok_iff.mp hlist
  obtain rfl := Except.ok.inj hlist
  obtain ⟨heading, hmem, hpart⟩ := List.mem_map.mp hpart
  obtain ⟨hdeletes, hline⟩ := edit_of_findings hpart hd he
  exact ⟨hdeletes, heading, hmem, hline⟩

end HeadingPunctuation

namespace FirstHeading

/-- This rule proposes nothing. -/
theorem proposes_rule : (rule : Rule m).Proposes fun _ _ _ => False := by
  refine Rule.proposes_ofSteps fun ctx source hctx list hlist part hpart d hd e he => ?_
  obtain ⟨level, -, hlist⟩ := bind_eq_ok_iff.mp hlist
  split at hlist
  · cases hlist
  · obtain rfl := Except.ok.inj hlist
    have h := (List.mem_singleton.mp hpart).symm
    unfold findings at h
    split at h
    · obtain rfl := Except.ok.inj h
      cases hd
    · obtain ⟨found, -, h⟩ := bind_eq_ok_iff.mp h
      split at h
      · obtain rfl := Except.ok.inj h
        cases hd
      · obtain ⟨line, -, h⟩ := bind_eq_ok_iff.mp h
        obtain rfl := Except.ok.inj h
        obtain rfl := List.mem_singleton.mp hd
        cases he

end FirstHeading

namespace FinalNewline

/-- Only the last line that is looked at has content. -/
theorem eq_of_mem_untilContent {lines : List Line} {k l : Line} (hk : k ∈ untilContent lines)
    (hl : l ∈ untilContent lines) (hk' : isContent k = true) (hl' : isContent l = true) :
    k = l := by
  induction lines with
  | nil => cases hk
  | cons first rest ih =>
    simp only [untilContent, List.mem_cons] at hk hl
    by_cases hfirst : isContent first = true
    · simp only [hfirst, if_true, List.not_mem_nil, or_false] at hk hl
      rw [hk, hl]
    · rw [if_neg hfirst] at hk hl
      rcases hk with rfl | hk
      · exact absurd hk' hfirst
      · rcases hl with rfl | hl
        · exact absurd hl' hfirst
        · exact ih hk hl

/-- How a source with this last line is brought to end in one newline. -/
def close (source : Text) (last : Line) : Edit :=
  if last.hasNewline then .delete last.stop source.size else .insert source.size ['\n']

theorem proposes_rule : (rule : Rule m).Proposes fun ctx source e =>
    ∃ last ∈ untilContent ctx.snapshot.lines.reverse, isContent last = true ∧
      e = close source last := by
  refine Rule.proposes_ofSteps fun ctx source hctx list hlist part hpart d hd e he => ?_
  obtain rfl := Except.ok.inj hlist
  obtain ⟨last, hmem, hpart⟩ := List.mem_map.mp hpart
  obtain rfl := Except.ok.inj hpart
  simp only [findings, hctx.source_eq] at hd
  split at hd
  · cases hd
  · rename_i hcontent
    refine ⟨last, hmem, by simpa using hcontent, ?_⟩
    split at hd
    · rename_i hopen
      obtain rfl := List.mem_singleton.mp hd
      obtain rfl := List.mem_singleton.mp he
      rw [close, if_neg (by simpa using hopen)]
    · rename_i hclosed
      split at hd
      · obtain rfl := List.mem_singleton.mp hd
        obtain rfl := List.mem_singleton.mp he
        rw [close, if_pos (by simpa using hclosed)]
      · cases hd

end FinalNewline
end Tidymark.Rules
