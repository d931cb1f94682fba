import Mathlib.Data.List.TakeWhile
import Tidymark.Proofs.Rules.Reports
import Tidymark.Rules.BlankRuns
import Tidymark.Rules.FinalNewline

/-! # What the rules for lines take out

These rules look at the lines of the source one after another. They take out white space of the
lines they look at, and put in white space. -/
namespace Tidymark.Rules

open Text (isWhitespace isSpaceOrTab)

variable {ctx : RuleContext} {p : Char → Prop} {source : Text} {line : Line} {d : Diagnostic}
variable {m : Type → Type} [Monad m] [LawfulMonad m] [MonadAttach m] [LawfulMonadAttach m]
variable [MonadCancel m] {q : Json → Char → Prop}

namespace TrailingSpaces

theorem mem_of_mem_withNext {lines : List Line} {next : Option Line}
    (h : (line, next) ∈ withNext lines) : line ∈ lines := by
  induction lines with
  | nil => cases h
  | cons l lines ih =>
    rcases List.mem_cons.mp h with h | h
    · obtain rfl := (Prod.mk.inj h).1
      simp
    · exact List.mem_cons_of_mem l (ih h)

theorem harmless_reports (hctx : ctx.Views source) (hline : line ∈ ctx.snapshot.lines)
    {width : Nat} {next : Option Line} (hd : d ∈ reports ctx width line next) :
    d.Harmless ctx p source := by
  simp only [reports] at hd
  split at hd
  · cases hd
  · obtain rfl := List.mem_singleton.mp hd
    obtain ⟨a, b, hsource, hstart⟩ := hctx.exists_around hline
    obtain ⟨s, htext, hs⟩ := Text.exists_eq_trimEndBy_append isSpaceOrTab line.text
    have hsize := congrArg Text.size htext
    rw [Text.size_append] at hsize
    refine Diagnostic.harmless_report (Edit.harmless_deleteSpan
      (a ++ Text.trimEndBy isSpaceOrTab line.text) s (line.terminator ++ b) ?_ ?_ ?_ ?_)
    · rw [hsource, htext]
      simp [← htext]
    · rw [hstart, Text.size_append]
    · simp only [Line.newlineStart, Text.size_append]
      omega
    · intro c hc
      exact .inl (Text.isWhitespace_of_isSpaceOrTab (hs c hc))

theorem harmless_rule : (rule : Rule m).Harmless q := by
  refine Rule.harmless_ofSteps fun ctx source hctx list hlist part hpart d hd => ?_
  unfold steps at hlist
  obtain ⟨width, -, hlist⟩ := bind_eq_ok_iff.mp hlist
  obtain rfl := Except.ok.inj hlist
  obtain ⟨⟨line, next⟩, hmem, hpart⟩ := List.mem_map.mp hpart
  have hline := mem_of_mem_withNext hmem
  obtain rfl := Except.ok.inj ((findings_eq hctx hline width next).symm.trans hpart)
  exact harmless_reports hctx hline hd

end TrailingSpaces

namespace HardTabs

theorem harmless_reports (hctx : ctx.Views source) (hline : line ∈ ctx.snapshot.lines)
    {width : Nat} (hd : d ∈ reports ctx width line) : d.Harmless ctx p source := by
  unfold reports at hd
  split at hd
  · cases hd
  · obtain ⟨run, hrun, rfl⟩ := List.mem_map.mp hd
    obtain ⟨a, b, hsource, hstart⟩ := hctx.exists_around hline
    obtain ⟨before, tabs, behind, htext, hrunStart, hrunStop, htabs⟩ :=
      holdsTabs_of_mem_tabRuns hrun
    have ha : run.start = (a ++ before).size := by rw [hrunStart, hstart, Text.size_append]
    refine Diagnostic.harmless_report (Edit.harmless_replaceSpan (a ++ before) tabs
      (behind ++ line.terminator ++ b) ?_ ha (ha ▸ hrunStop) ?_ ?_)
    · rw [hsource, htext]
      simp
    · intro c hc
      rw [htabs c hc]
      exact .inl (by decide)
    · intro c hc
      obtain ⟨-, rfl⟩ := List.mem_replicate.mp hc
      decide

theorem harmless_rule : (rule : Rule m).Harmless q := by
  refine Rule.harmless_ofSteps fun ctx source hctx list hlist part hpart d hd => ?_
  obtain ⟨width, -, hlist⟩ := bind_eq_ok_iff.mp hlist
  obtain rfl := Except.ok.inj hlist
  obtain ⟨line, hmem, hpart⟩ := List.mem_map.mp hpart
  obtain rfl := Except.ok.inj ((findings_eq hctx hmem width).symm.trans hpart)
  exact harmless_reports hctx hmem hd

end HardTabs

namespace BlankRuns

/-- Only blank lines have a place in a run of blank lines. -/
theorem of_mem_withPlace {lines : List Line} {before place : Nat}
    (h : (line, place) ∈ withPlace before lines) :
    line ∈ lines ∧ (0 < place → line.isBlank = true) := by
  induction lines generalizing before with
  | nil => cases h
  | cons l lines ih =>
    rcases List.mem_cons.mp h with h | h
    · obtain ⟨rfl, rfl⟩ := Prod.mk.inj h
      refine ⟨by simp, fun hplace => ?_⟩
      split at hplace
      · omega
      · rename_i hplain
        simp only [Bool.or_eq_true, not_or] at hplain
        simpa using hplain.1
    · obtain ⟨hmem, hblank⟩ := ih h
      exact ⟨List.mem_cons_of_mem l hmem, hblank⟩

theorem harmless_findings (hctx : ctx.Views source) (hline : line ∈ ctx.snapshot.lines)
    {maximum place : Nat} (hblank : 0 < place → line.isBlank = true)
    (hd : d ∈ findings ctx maximum line place) : d.Harmless ctx p source := by
  unfold findings at hd
  split at hd
  · obtain rfl := List.mem_singleton.mp hd
    obtain ⟨a, b, hsource, hstart⟩ := hctx.exists_around hline
    refine Diagnostic.harmless_report (Edit.harmless_deleteSpan a line.whole b ?_ hstart ?_ ?_)
    · rw [hsource, Line.whole, List.append_assoc a]
    · rw [← hstart]
      exact line.stop_eq
    · intro c hc
      exact .inl (hctx.isWhitespace_of_blank hline (hblank (by omega)) hc)
  · cases hd

theorem harmless_rule : (rule : Rule m).Harmless q := by
  refine Rule.harmless_ofSteps fun ctx source hctx list hlist part hpart d hd => ?_
  obtain ⟨maximum, -, hlist⟩ := bind_eq_ok_iff.mp hlist
  obtain rfl := Except.ok.inj hlist
  obtain ⟨⟨line, place⟩, hmem, hpart⟩ := List.mem_map.mp hpart
  obtain rfl := Except.ok.inj hpart
  obtain ⟨hline, hblank⟩ := of_mem_withPlace hmem
  exact harmless_findings hctx hline hblank hd

end BlankRuns

namespace HashSpace

/-- The edit puts a space behind the hashes that follow the indentation. -/
theorem harmless_reports (hctx : ctx.Views source) (hline : line ∈ ctx.snapshot.lines)
    (hd : d ∈ reports ctx line) : d.Harmless ctx p source := by
  have htext := List.prefix_iff_eq_append.mp line.indentation_isPrefix
  simp only [reports] at hd
  generalize line.text.drop line.indentation.length = content at hd htext
  have hcontent := List.prefix_iff_eq_append.mp (List.takeWhile_prefix (l := content) (· == '#'))
  have hhashes := Text.size_takeWhile (fun _ => Text.utf8Size_of_eq_hash) content
  split at hd
  · cases hd
  · split at hd
    · cases hd
    · split at hd
      · cases hd
      · split at hd
        · cases hd
        · obtain rfl := List.mem_singleton.mp hd
          obtain ⟨a, b, hsource, hstart⟩ := hctx.exists_around hline
          refine Diagnostic.harmless_report (Edit.harmless_insert
            (a ++ line.indentation ++ content.takeWhile (· == '#'))
            (content.drop (content.takeWhile (· == '#')).length ++ line.terminator ++ b)
            ?_ ?_ (List.forall_mem_singleton.mpr rfl))
          · conv_lhs => rw [hsource, ← htext, ← hcontent]
            simp
          · simp only [Line.contentStart, Line.indentBytes, hstart, Text.size_append, hhashes]

theorem harmless_rule : (rule : Rule m).Harmless q := by
  refine Rule.harmless_ofSteps fun ctx source hctx list hlist part hpart d hd => ?_
  obtain rfl := Except.ok.inj hlist
  obtain ⟨line, hmem, hpart⟩ := List.mem_map.mp hpart
  obtain rfl := Except.ok.inj ((findings_eq hctx hmem).symm.trans hpart)
  exact harmless_reports hctx hmem hd

end HashSpace

namespace FinalNewline

theorem mem_of_mem_untilContent {lines : List Line} (h : line ∈ untilContent lines) :
    ∃ skipped rest, lines = skipped ++ line :: rest ∧ ∀ l ∈ skipped, isContent l = false := by
  induction lines with
  | nil => cases h
  | cons l lines ih =>
    rcases List.mem_cons.mp h with rfl | h
    · exact ⟨[], lines, rfl, by simp⟩
    · split at h
      · cases h
      · rename_i hl
        obtain ⟨skipped, rest, rfl, hskipped⟩ := ih h
        refine ⟨l :: skipped, rest, rfl, fun k hk => ?_⟩
        rcases List.mem_cons.mp hk with rfl | hk
        · simpa using hl
        · exact hskipped k hk

theorem harmless_findings (hctx : ctx.Views source)
    (hline : line ∈ untilContent ctx.snapshot.lines.reverse) (hd : d ∈ findings ctx line) :
    d.Harmless ctx p source := by
  simp only [findings, hctx.source_eq] at hd
  split at hd
  · cases hd
  · split at hd
    · obtain rfl := List.mem_singleton.mp hd
      exact Diagnostic.harmless_report
        (Edit.harmless_insert source [] (by simp) rfl (List.forall_mem_singleton.mpr rfl))
    · split at hd
      · obtain rfl := List.mem_singleton.mp hd
        obtain ⟨behind, ahead, hlines, hbehind⟩ := mem_of_mem_untilContent hline
        have hlines' : ctx.snapshot.lines = ahead.reverse ++ line :: behind.reverse := by
          rw [← List.reverse_reverse ctx.snapshot.lines, hlines]
          simp
        obtain ⟨a, b, hsource, hstart, -, hb⟩ := (hlines' ▸ hctx.tiles).split
        have hstop : line.stop = (a ++ line.whole).size := by
          rw [line.stop_eq, hstart, Text.size_append]
          omega
        refine Diagnostic.harmless_report (Edit.harmless_of_split (a ++ line.whole) b []
          (by simpa using hsource) hstop ?_ ?_ (by simp [Edit.delete]))
        · rw [hsource, Text.size_append (a ++ line.whole)]
          rfl
        · intro c hc
          obtain ⟨l, hl, hcl⟩ := hb.exists_mem hc
          have hcontent := hbehind l (List.mem_reverse.mp hl)
          have hblank : l.isBlank = true := by
            simp only [isContent, Bool.or_eq_false_iff] at hcontent
            simpa using hcontent.1
          exact .inl (hctx.isWhitespace_of_blank (by simp [hlines', List.mem_reverse.mp hl])
            hblank hcl)
      · cases hd

theorem harmless_rule : (rule : Rule m).Harmless q := by
  refine Rule.harmless_ofSteps fun ctx source hctx list hlist part hpart d hd => ?_
  obtain rfl := Except.ok.inj hlist
  obtain ⟨line, hmem, hpart⟩ := List.mem_map.mp hpart
  obtain rfl := Except.ok.inj hpart
  exact harmless_findings hctx hmem hd

end FinalNewline
end Tidymark.Rules
