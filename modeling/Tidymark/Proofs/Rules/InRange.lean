import Tidymark.Proofs.Rule.Access
import Tidymark.Proofs.Rules.HeadingReference
import Tidymark.Proofs.Rules.Lines
import Tidymark.Rules

/-! # Every rule stays in range

On a tree that puts its headings and blocks on parts of the source, no rule of the library breaks
down: each line that it asks for is there, and each cut that it makes lies between characters. -/
namespace Tidymark.Rules

open Text (isSpaceOrTab isWhitespace trimEndBy)

variable {ctx : RuleContext} {source : Text} {line : Line} {heading : Heading}

namespace TrailingSpaces

theorem locates_of_mem_reports (hctx : ctx.Views source) (hline : line ∈ ctx.snapshot.lines)
    {width : Nat} {next : Option Line} : ∀ d ∈ reports ctx width line next, ctx.Locates d := by
  intro d hd
  simp only [reports] at hd
  split at hd
  · cases hd
  · obtain rfl := List.mem_singleton.mp hd
    obtain ⟨s, hs, -⟩ := Text.exists_eq_trimEndBy_append isSpaceOrTab line.text
    have hsize := congrArg Text.size hs
    rw [Text.size_append] at hsize
    refine hctx.locates_report (hctx.slice_of_line hline
      (p := trimEndBy isSpaceOrTab line.text) (q := s) (r := []) ?_ rfl ?_) _ _
    · rw [List.append_nil]
      exact hs
    · simp only [Line.newlineStart]
      omega

theorem answersIn (hctx : ctx.Views source) : (rule : Rule Id).AnswersIn ctx :=
  Rule.answersIn_of_count fun width => .inl ⟨_, rfl, fun step hstep => by
    obtain ⟨⟨line, next⟩, hmem, rfl⟩ := List.mem_map.mp hstep
    have hline := mem_of_mem_withNext hmem
    exact ⟨_, findings_eq hctx hline width next, locates_of_mem_reports hctx hline⟩⟩

end TrailingSpaces

namespace HardTabs

theorem locates_of_mem_reports (hctx : ctx.Views source) (hline : line ∈ ctx.snapshot.lines)
    {width : Nat} : ∀ d ∈ reports ctx width line, ctx.Locates d := by
  intro d hd
  unfold reports at hd
  split at hd
  · cases hd
  · obtain ⟨run, hrun, rfl⟩ := List.mem_map.mp hd
    obtain ⟨before, tabs, behind, htext, hstart, hstop, -⟩ := holdsTabs_of_mem_tabRuns hrun
    exact hctx.locates_report (hctx.slice_of_line hline htext hstart hstop) _ _

theorem answersIn (hctx : ctx.Views source) : (rule : Rule Id).AnswersIn ctx :=
  Rule.answersIn_of_count fun width => .inl ⟨_, rfl, fun step hstep => by
    obtain ⟨line, hmem, rfl⟩ := List.mem_map.mp hstep
    exact ⟨_, findings_eq hctx hmem width, locates_of_mem_reports hctx hmem⟩⟩

end HardTabs

namespace BlankRuns

theorem locates_of_mem_findings (hctx : ctx.Views source) (hline : line ∈ ctx.snapshot.lines)
    {maximum place : Nat} : ∀ d ∈ findings ctx maximum line place, ctx.Locates d := by
  intro d hd
  unfold findings at hd
  split at hd
  · obtain rfl := List.mem_singleton.mp hd
    exact hctx.locates_report_line hline _ _
  · cases hd

theorem answersIn (hctx : ctx.Views source) : (rule : Rule Id).AnswersIn ctx :=
  Rule.answersIn_of_count fun maximum => .inl ⟨_, rfl, fun step hstep => by
    obtain ⟨⟨line, place⟩, hmem, rfl⟩ := List.mem_map.mp hstep
    exact RuleContext.answers_ok (locates_of_mem_findings hctx (of_mem_withPlace hmem).1)⟩

end BlankRuns

namespace HashSpace

/-- The text of a line is its indentation, hashes, and the rest. -/
theorem exists_text_eq (line : Line) : ∃ rest : Text,
    line.text = line.indentation ++
      (line.text.drop line.indentation.length).takeWhile (· == '#') ++ rest := by
  have htext := List.prefix_iff_eq_append.mp line.indentation_isPrefix
  generalize line.text.drop line.indentation.length = content at htext
  exact ⟨content.dropWhile (· == '#'), by
    rw [List.append_assoc, List.takeWhile_append_dropWhile, htext]⟩

theorem size_hashes (text : Text) :
    Text.size (text.takeWhile (· == '#')) = (text.takeWhile (· == '#')).length :=
  Text.size_takeWhile (fun _ => Text.utf8Size_of_eq_hash) text

theorem locates_of_mem_reports (hctx : ctx.Views source) (hline : line ∈ ctx.snapshot.lines) :
    ∀ d ∈ reports ctx line, ctx.Locates d := by
  intro d hd
  obtain ⟨rest, htext⟩ := exists_text_eq line
  have hsize := size_hashes (line.text.drop line.indentation.length)
  simp only [reports] at hd
  split at hd
  · cases hd
  · split at hd
    · cases hd
    · split at hd
      · cases hd
      · split at hd
        · cases hd
        · obtain rfl := List.mem_singleton.mp hd
          exact hctx.locates_report (hctx.slice_of_line hline htext rfl
            (by rw [hsize, Line.contentStart, Line.indentBytes])) _ _

theorem answersIn (hctx : ctx.Views source) : (rule : Rule Id).AnswersIn ctx :=
  Rule.answersIn_ofSteps (.inl ⟨_, rfl, fun step hstep => by
    obtain ⟨line, hmem, rfl⟩ := List.mem_map.mp hstep
    exact ⟨_, findings_eq hctx hmem, locates_of_mem_reports hctx hmem⟩⟩)

end HashSpace

namespace FinalNewline

theorem locates_of_mem_findings (hctx : ctx.Views source) (hline : line ∈ ctx.snapshot.lines) :
    ∀ d ∈ findings ctx line, ctx.Locates d := by
  intro d hd
  simp only [findings, hctx.source_eq] at hd
  split at hd
  · cases hd
  · split at hd
    · obtain rfl := List.mem_singleton.mp hd
      exact hctx.locates_report (q := [])
        (Text.slice?_eq_some_iff.mpr ⟨source, [], by simp, rfl, rfl⟩) _ _
    · split at hd
      · obtain rfl := List.mem_singleton.mp hd
        obtain ⟨a, b, hsource, hstart⟩ := hctx.exists_around hline
        refine hctx.locates_report (q := b) (Text.slice?_eq_some_iff.mpr
          ⟨a ++ line.text ++ line.terminator, [], by simpa using hsource, ?_, ?_⟩) _ _
        · simp only [Line.stop, Line.newlineStart, hstart, Text.size_append]
        · rw [hsource, Text.size_append _ b]
      · cases hd

theorem answersIn (hctx : ctx.Views source) : (rule : Rule Id).AnswersIn ctx :=
  Rule.answersIn_ofSteps (.inl ⟨_, rfl, fun step hstep => by
    obtain ⟨line, hmem, rfl⟩ := List.mem_map.mp hstep
    obtain ⟨skipped, rest, hlines, -⟩ := mem_of_mem_untilContent hmem
    have hline : line ∈ ctx.snapshot.lines.reverse := hlines ▸ by simp
    exact RuleContext.answers_ok (locates_of_mem_findings hctx (List.mem_reverse.mp hline))⟩)

end FinalNewline

section
variable (hctx : ctx.Views source) (hplaced : ctx.snapshot.WellPlaced)
include hctx hplaced

/-- A heading starts on a line that there is, no further than where the line's text ends. -/
theorem exists_first_line (hheading : heading ∈ ctx.snapshot.headings) :
    ∃ line, ctx.line heading.line = .ok line ∧ line ∈ ctx.snapshot.lines ∧
      line.start ≤ heading.span.start ∧ heading.span.start ≤ line.newlineStart := by
  obtain ⟨hlt, -, hstop⟩ := hctx.source_eq ▸ hplaced.headings heading hheading
  have hle := Text.le_size_of_isBoundary hstop
  obtain ⟨line, hline, hmem, hat, hstart, -⟩ := hctx.exists_line (hlt.trans_le hle)
  rw [← hctx.line_eq hheading] at hline hat
  exact ⟨line, hline, hmem, hstart, hplaced.starts heading hheading line hat⟩

/-- A heading ends on a line that there is. -/
theorem exists_last_line (hheading : heading ∈ ctx.snapshot.headings) :
    ∃ line, ctx.line (ctx.snapshot.lineIndex (heading.span.stop - 1)) = .ok line ∧
      line ∈ ctx.snapshot.lines := by
  obtain ⟨hlt, -, hstop⟩ := hctx.source_eq ▸ hplaced.headings heading hheading
  have hle := Text.le_size_of_isBoundary hstop
  obtain ⟨line, hline, hmem, -⟩ :=
    hctx.exists_line (i := heading.span.stop - 1) (by omega)
  exact ⟨line, hline, hmem⟩

end

namespace HashGap

theorem answers_findings (hctx : ctx.Views source) (hplaced : ctx.snapshot.WellPlaced)
    (hheading : heading ∈ ctx.snapshot.headings) : ctx.Answers (findings ctx heading) := by
  obtain ⟨line, hline, hmem, -, hle⟩ := exists_first_line hctx hplaced hheading
  obtain ⟨-, hstart, -⟩ := hctx.source_eq ▸ hplaced.headings heading hheading
  obtain ⟨text, htext⟩ := Text.exists_slice hstart (hctx.isBoundary_newlineStart hmem) hle
  have hslice := RuleContext.slice_eq_ok hctx htext
  unfold findings
  split
  · exact RuleContext.answers_ok (by simp)
  · obtain ⟨found, hgap⟩ : ∃ found, gap? heading.span.start text = .ok found :=
      ⟨_, gap?_eq heading.span.start text⟩
    refine RuleContext.answers_bind hline
      (RuleContext.answers_bind hslice (RuleContext.answers_bind hgap ?_))
    cases found with
    | none => exact RuleContext.answers_ok (by simp)
    | some span =>
      refine RuleContext.answers_ok fun d hd => ?_
      obtain rfl := List.mem_singleton.mp hd
      obtain ⟨before, gap, behind, rfl, hspanStart, hspanStop, -⟩ := exists_split_of_gap? hgap
      exact hctx.locates_report (Text.slice_of_slice htext hspanStart hspanStop) _ _

theorem answersIn (hctx : ctx.Views source) (hplaced : ctx.snapshot.WellPlaced) :
    (rule : Rule Id).AnswersIn ctx :=
  Rule.answersIn_ofSteps (.inl ⟨_, rfl, fun step hstep => by
    obtain ⟨heading, hmem, rfl⟩ := List.mem_map.mp hstep
    exact answers_findings hctx hplaced hmem⟩)

end HashGap

namespace HeadingBlanks

theorem locates_of_mem_findingsAbove (hctx : ctx.Views source)
    (hline : line ∈ ctx.snapshot.lines) {above : Option Line} :
    ∀ d ∈ findingsAbove ctx line above, ctx.Locates d := by
  intro d hd
  unfold findingsAbove at hd
  split at hd
  · cases hd
  · split at hd
    · cases hd
    · obtain rfl := List.mem_singleton.mp hd
      exact hctx.locates_report_line hline _ _

theorem locates_of_mem_findingsBelow (hctx : ctx.Views source)
    (hline : line ∈ ctx.snapshot.lines) {below : Option Line} :
    ∀ d ∈ findingsBelow ctx line below, ctx.Locates d := by
  intro d hd
  unfold findingsBelow at hd
  split at hd
  · obtain rfl := List.mem_singleton.mp hd
    exact hctx.locates_report_line hline _ _
  · cases hd

theorem answers_findings (hctx : ctx.Views source) (hplaced : ctx.snapshot.WellPlaced)
    (hheading : heading ∈ ctx.snapshot.headings) : ctx.Answers (findings ctx heading) := by
  obtain ⟨first, hfirst, hmem, -⟩ := exists_first_line hctx hplaced hheading
  obtain ⟨last, hlast, hmem'⟩ := exists_last_line hctx hplaced hheading
  obtain ⟨hlt, -⟩ := hplaced.headings heading hheading
  have hbyte : max (heading.span.stop - 1) heading.span.start = heading.span.stop - 1 := by omega
  have habove := lineAbove_eq (RuleContext.getElem?_of_line hfirst)
  refine RuleContext.answers_bind hfirst
    (RuleContext.answers_bind habove (RuleContext.answers_bind (hbyte ▸ hlast) ?_))
  refine RuleContext.answers_ok fun d hd => ?_
  rcases List.mem_append.mp hd with hd | hd
  · exact locates_of_mem_findingsAbove hctx hmem d hd
  · exact locates_of_mem_findingsBelow hctx hmem' d hd

theorem answersIn (hctx : ctx.Views source) (hplaced : ctx.snapshot.WellPlaced) :
    (rule : Rule Id).AnswersIn ctx :=
  Rule.answersIn_ofSteps (.inl ⟨_, rfl, fun step hstep => by
    obtain ⟨heading, hmem, rfl⟩ := List.mem_map.mp hstep
    exact answers_findings hctx hplaced (List.mem_filter.mp hmem).1⟩)

end HeadingBlanks

namespace HeadingIndent

theorem answers_findings (hctx : ctx.Views source) (hplaced : ctx.snapshot.WellPlaced)
    (hheading : heading ∈ ctx.snapshot.headings) : ctx.Answers (findings ctx heading) := by
  obtain ⟨line, hline, hmem, -⟩ := exists_first_line hctx hplaced hheading
  obtain ⟨rest, htext⟩ := line.indentation_isPrefix
  refine RuleContext.answers_bind hline ?_
  split
  · exact RuleContext.answers_ok (by simp)
  · refine RuleContext.answers_ok fun d hd => ?_
    obtain rfl := List.mem_singleton.mp hd
    exact hctx.locates_report
      (hctx.slice_of_line hmem (p := []) (r := rest) (by simp [htext]) rfl rfl) _ _

theorem answersIn (hctx : ctx.Views source) (hplaced : ctx.snapshot.WellPlaced) :
    (rule : Rule Id).AnswersIn ctx :=
  Rule.answersIn_ofSteps (.inl ⟨_, rfl, fun step hstep => by
    obtain ⟨heading, hmem, rfl⟩ := List.mem_map.mp hstep
    exact answers_findings hctx hplaced (List.mem_filter.mp hmem).1⟩)

end HeadingIndent

namespace HeadingPunctuation

/-- The text of an underlined heading ends above the underline, on the line that the heading starts
on or on a later one. -/
theorem exists_text_line (hctx : ctx.Views source) (hplaced : ctx.snapshot.WellPlaced)
    (hheading : heading ∈ ctx.snapshot.headings) :
    ∃ line, ctx.line (textLine ctx.snapshot heading) = .ok line ∧ line ∈ ctx.snapshot.lines ∧
      heading.span.start ≤ line.newlineStart := by
  obtain ⟨first, hfirst, hmem, -, hle⟩ := exists_first_line hctx hplaced hheading
  obtain ⟨last, hlast, -⟩ := exists_last_line hctx hplaced hheading
  cases hsetext : heading.setext with
  | false =>
    refine ⟨first, ?_, hmem, hle⟩
    rw [textLine, hsetext, if_neg Bool.false_ne_true]
    exact hfirst
  | true =>
    have hbelow := hplaced.underlines heading hheading hsetext
    have hfirst := RuleContext.getElem?_of_line hfirst
    have hlast := RuleContext.getElem?_of_line hlast
    obtain ⟨hbound, -⟩ := List.getElem?_eq_some_iff.mp hlast
    obtain ⟨line, hline⟩ : ∃ line,
        ctx.snapshot.lines[ctx.snapshot.lineIndex (heading.span.stop - 1) - 1]? = some line :=
      ⟨_, List.getElem?_eq_getElem (by omega)⟩
    refine ⟨line, ?_, List.mem_of_getElem? hline, ?_⟩
    · rw [textLine, hsetext, if_pos rfl, RuleContext.line, hline]
    · rcases Nat.eq_or_lt_of_le (Nat.le_sub_one_of_lt hbelow) with heq | hlt
      · rw [← heq, hfirst] at hline
        rwa [← Option.some.inj hline]
      · have hapart := hctx.tiles.stop_le_start_of_lt hfirst hline hlt
        have hstop : first.newlineStart ≤ first.stop := Nat.le_add_right _ _
        have hstart : line.start ≤ line.newlineStart := Nat.le_add_right _ _
        omega

theorem answers_findings (hctx : ctx.Views source) (hplaced : ctx.snapshot.WellPlaced)
    (hheading : heading ∈ ctx.snapshot.headings) {punctuation : Text} :
    ctx.Answers (findings ctx punctuation heading) := by
  obtain ⟨line, hline, hmem, hle⟩ := exists_text_line hctx hplaced hheading
  obtain ⟨-, hstart, -⟩ := hctx.source_eq ▸ hplaced.headings heading hheading
  have hboundary : source.isBoundary (max line.start heading.span.start) = true := by
    rw [Nat.max_def]
    split
    · exact hstart
    · exact hctx.isBoundary_start hmem
  obtain ⟨text, htext⟩ := Text.exists_slice hboundary (hctx.isBoundary_newlineStart hmem)
    (Nat.max_le.mpr ⟨Nat.le_add_right _ _, hle⟩)
  refine RuleContext.answers_bind hline
    (RuleContext.answers_bind (RuleContext.slice_eq_ok hctx htext) ?_)
  have hprefix := trimmed_isPrefix heading text
  simp only
  generalize (if heading.setext = true then _ else content text) = trimmed at hprefix
  obtain ⟨rest, rfl⟩ := hprefix
  have hending := Text.dropBytes_of_isPrefix
    (Text.trimEndBy_isPrefix punctuation.contains trimmed)
  split
  · exact RuleContext.answers_ok (by simp)
  refine RuleContext.answers_bind (endsInReference_eq trimmed) ?_
  split
  · exact RuleContext.answers_ok (by simp)
  · refine RuleContext.answers_bind hending (RuleContext.answers_ok fun d hd => ?_)
    obtain rfl := List.mem_singleton.mp hd
    obtain ⟨s, hs, -⟩ := Text.exists_eq_trimEndBy_append punctuation.contains trimmed
    have hsize := congrArg Text.size hs
    rw [Text.size_append] at hsize
    have hslice := hs ▸ htext
    exact hctx.locates_report (Text.slice_of_slice hslice rfl (by omega)) _ _

theorem answersIn (hctx : ctx.Views source) (hplaced : ctx.snapshot.WellPlaced) :
    (rule : Rule Id).AnswersIn ctx := by
  refine Rule.answersIn_ofSteps ?_
  rcases ctx.option_cases "punctuation" defaultPunctuation Json.asStr? "expected a string" with
    ⟨s, hs⟩ | ⟨message, hs⟩
  · refine .inl ⟨_, by rw [steps, RuleContext.stringOption, hs]; rfl, fun step hstep => ?_⟩
    obtain ⟨heading, hmem, rfl⟩ := List.mem_map.mp hstep
    exact answers_findings hctx hplaced hmem
  · exact .inr ⟨"punctuation", message, by rw [steps, RuleContext.stringOption, hs]; rfl⟩

end HeadingPunctuation

namespace FirstHeading

/-- Behind a tag that could be cut out of the literal, the rest can be cut off. -/
theorem exists_opensHeading (level : Nat) (html : Text) : ∃ b, opensHeading level html = .ok b := by
  unfold opensHeading
  dsimp only
  split
  · exact ⟨_, rfl⟩
  · rename_i opening hopening
    obtain ⟨front, rest, rfl, hfront, hsize⟩ := Text.slice?_eq_some_iff.mp hopening
    have hcut := Text.dropBytes_size_append (front ++ opening) rest
    rw [Text.size_append, hsize] at hcut
    split
    · exact ⟨_, rfl⟩
    · rw [hcut]
      exact ⟨_, rfl⟩

theorem exists_isHeading (level : Nat) (node : Node) : ∃ b, isHeading level node = .ok b := by
  unfold isHeading
  split
  · exact ⟨_, rfl⟩
  · split
    · exact exists_opensHeading level _
    · exact ⟨_, rfl⟩
  · exact ⟨_, rfl⟩

theorem answers_findings (hctx : ctx.Views source) (hplaced : ctx.snapshot.WellPlaced)
    {level : Nat} : ctx.Answers (findings ctx level) := by
  unfold findings
  split
  · exact RuleContext.answers_ok (by simp)
  · rename_i first hfirst
    obtain ⟨hlt, -, hstop⟩ := hctx.source_eq ▸
      hplaced.children first (List.mem_of_find?_eq_some hfirst)
    have hle := Text.le_size_of_isBoundary hstop
    obtain ⟨line, hline, hmem, -⟩ := hctx.exists_line (hlt.trans_le hle)
    obtain ⟨found, hfound⟩ := exists_isHeading level first
    refine RuleContext.answers_bind hfound ?_
    split
    · exact RuleContext.answers_ok (by simp)
    · refine RuleContext.answers_bind hline (RuleContext.answers_ok fun d hd => ?_)
      obtain rfl := List.mem_singleton.mp hd
      exact hctx.locates_report_line hmem _ _

theorem answersIn (hctx : ctx.Views source) (hplaced : ctx.snapshot.WellPlaced) :
    (rule : Rule Id).AnswersIn ctx :=
  Rule.answersIn_of_count fun level => by
    split
    · exact .inr ⟨_, _, rfl⟩
    · refine .inl ⟨_, rfl, fun step hstep => ?_⟩
      obtain rfl := List.mem_singleton.mp hstep
      exact answers_findings hctx hplaced

end FirstHeading

/-- Where the headings and the blocks of a tree are parts of the source, every rule of the library
answers, with findings about parts of the source, unless it turns down its options. -/
theorem answers_in_range {rule : Rule Id} (hrule : rule ∈ all) {path : String} {root : Node}
    (hsnapshot : ctx.snapshot = .ofTree path source root) (hplaced : ctx.snapshot.WellPlaced) :
    rule.AnswersIn ctx := by
  have hctx : ctx.Views source := ⟨path, root, hsnapshot⟩
  simp only [all, List.mem_cons, List.not_mem_nil, or_false] at hrule
  rcases hrule with rfl | rfl | rfl | rfl | rfl | rfl | rfl | rfl | rfl | rfl
  · exact TrailingSpaces.answersIn hctx
  · exact HardTabs.answersIn hctx
  · exact BlankRuns.answersIn hctx
  · exact HashSpace.answersIn hctx
  · exact HashGap.answersIn hctx hplaced
  · exact HeadingBlanks.answersIn hctx hplaced
  · exact HeadingIndent.answersIn hctx hplaced
  · exact HeadingPunctuation.answersIn hctx hplaced
  · exact FirstHeading.answersIn hctx hplaced
  · exact FinalNewline.answersIn hctx

/-- An underlined heading and one behind it without a line feed at its end. -/
theorem answers_in_range_two_headings :
    let source := "Hi.\n===\n#  B".toList
    let root := Node.branch .root ⟨0, 12⟩
      [.leaf .heading ⟨0, 7⟩ (.heading 1 true), .leaf .heading ⟨8, 12⟩ (.heading 1 false)]
    let ctx : RuleContext := ⟨.ofTree "a.md" source root, "MD026", "", .error, Json.empty⟩
    (HeadingPunctuation.rule : Rule Id) ∈ all ∧ ctx.snapshot.WellPlaced ∧
      (HeadingPunctuation.rule : Rule Id).AnswersIn ctx := by
  intro source root ctx
  have hrule : (HeadingPunctuation.rule : Rule Id) ∈ all := by simp [all]
  have hplaced : ctx.snapshot.WellPlaced :=
    ⟨by decide +kernel, by decide +kernel, by decide +kernel, by decide +kernel⟩
  exact ⟨hrule, hplaced, answers_in_range hrule rfl hplaced⟩

end Tidymark.Rules
