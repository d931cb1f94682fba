import Mathlib.Data.List.TakeWhile
import Tidymark.Proofs.Rule.Cuts
import Tidymark.Rules.FirstHeading
import Tidymark.Rules.HashGap
import Tidymark.Rules.HeadingBlanks
import Tidymark.Rules.HeadingIndent
import Tidymark.Rules.HeadingPunctuation

/-! # What the rules for headings take out

These rules look at what the tree calls a heading, wherever that is. They take out white space, and
one of them the punctuation that its options name. -/
namespace Tidymark.Rules

open Text (isWhitespace isSpaceOrTab trimEndBy)

variable {ctx : RuleContext} {p : Char → Prop} {source : Text} {heading : Heading}
variable {found : List Diagnostic} {d : Diagnostic}
variable {m : Type → Type} [Monad m] [LawfulMonad m] [MonadAttach m] [LawfulMonadAttach m]
variable [MonadCancel m] {q : Json → Char → Prop}

namespace HashGap

/-- The rule finds blanks, hashes and blanks again at the start of a text, and never breaks down. -/
theorem gap?_eq (start : Nat) (text : Text) :
    let indent : Text := text.takeWhile isSpaceOrTab
    let marked : Text := text.drop indent.length
    let hashes : Text := marked.takeWhile (· == '#')
    let rest : Text := marked.drop hashes.length
    let gap : Text := rest.takeWhile isSpaceOrTab
    gap? start text = .ok (if gap.length ≤ 1 ∨ rest.drop gap.length = [] then none
      else some ⟨start + indent.length + hashes.length,
        start + indent.length + hashes.length + gap.length⟩) := by
  intro indent marked hashes rest gap
  have htext : indent ++ marked = text := List.prefix_iff_eq_append.mp (List.takeWhile_prefix _)
  have hmarked : hashes ++ rest = marked := List.prefix_iff_eq_append.mp (List.takeWhile_prefix _)
  have hrest : gap ++ rest.drop gap.length = rest :=
    List.prefix_iff_eq_append.mp (List.takeWhile_prefix _)
  have hindent : indent.size = indent.length :=
    Text.size_takeWhile (fun _ => Text.utf8Size_of_isSpaceOrTab) text
  have hhashes : hashes.size = hashes.length :=
    Text.size_takeWhile (fun _ => Text.utf8Size_of_eq_hash) marked
  have hgap : gap.size = gap.length :=
    Text.size_takeWhile (fun _ => Text.utf8Size_of_isSpaceOrTab) rest
  have hcut : text.dropBytes indent.length = .ok marked := by
    rw [← hindent, ← htext]
    exact Text.dropBytes_size_append indent marked
  have hcut' : text.dropBytes (indent.length + hashes.length) = .ok rest := by
    rw [← hindent, ← hhashes, ← Text.size_append, ← htext, ← hmarked, ← List.append_assoc]
    exact Text.dropBytes_size_append _ rest
  have hend : indent.length + hashes.length + gap.length = text.size ↔ rest.drop gap.length = [] := by
    have hsize : text.size = indent.size + (hashes.size + (gap.size + Text.size (rest.drop gap.length))) := by
      rw [← Text.size_append, hrest, ← Text.size_append, hmarked, ← Text.size_append, htext]
    rw [← Text.size_eq_zero]
    omega
  unfold gap?
  dsimp only
  rw [hcut]
  dsimp only [bind, Except.bind]
  rw [hcut']
  dsimp only
  simp only [Bool.or_eq_true, decide_eq_true_eq, beq_iff_eq]
  by_cases hnone : gap.length ≤ 1 ∨ rest.drop gap.length = []
  · rw [if_pos hnone, if_pos (hnone.imp_right hend.mpr)]
    rfl
  · rw [if_neg hnone, if_neg fun h => hnone (h.imp_right hend.mp)]
    rfl

/-- The gap is a part of the text that is made of spaces and tabs, with other characters around
it. -/
theorem exists_split_of_gap? {start : Nat} {text : Text} {span : Span}
    (h : gap? start text = .ok (some span)) :
    ∃ before gap behind : Text, text = before ++ gap ++ behind ∧ span.start = start + before.size ∧
      span.stop = span.start + gap.size ∧ (∀ c ∈ gap, isSpaceOrTab c = true) ∧
      (∃ c ∈ before.getLast?, isSpaceOrTab c = false) ∧
      ∃ c ∈ behind.head?, isSpaceOrTab c = false := by
  have htext := List.prefix_iff_eq_append.mp (List.takeWhile_prefix (l := text) isSpaceOrTab)
  have hindent := Text.size_takeWhile (fun _ => Text.utf8Size_of_isSpaceOrTab) text
  have hhead := Text.not_of_mem_head?_drop isSpaceOrTab text
  rw [gap?_eq, Except.ok.injEq] at h
  generalize text.drop (text.takeWhile isSpaceOrTab).length = marked at h htext hhead
  have hmarked := List.prefix_iff_eq_append.mp (List.takeWhile_prefix (l := marked) (· == '#'))
  have hhashes := Text.size_takeWhile (fun _ => Text.utf8Size_of_eq_hash) marked
  generalize hrest' : marked.drop (marked.takeWhile (· == '#')).length = rest at h hmarked
  have hrest := List.prefix_iff_eq_append.mp (List.takeWhile_prefix (l := rest) isSpaceOrTab)
  have hgap := Text.size_takeWhile (fun _ => Text.utf8Size_of_isSpaceOrTab) rest
  have hbehind := Text.not_of_mem_head?_drop isSpaceOrTab rest
  split at h
  · cases h
  · rename_i hwide
    obtain rfl := Option.some.inj h
    rw [not_or] at hwide
    have hne : marked.takeWhile (· == '#') ≠ [] := by
      intro hnone
      rw [hnone, List.length_nil, List.drop_zero] at hrest'
      subst hrest'
      cases marked with
      | nil => simp at hwide
      | cons c marked => simp [hhead c rfl] at hwide
    refine ⟨text.takeWhile isSpaceOrTab ++ marked.takeWhile (· == '#'), rest.takeWhile isSpaceOrTab,
      rest.drop (rest.takeWhile isSpaceOrTab).length, ?_, ?_, ?_,
      fun c hc => List.mem_takeWhile_imp hc, ?_, ?_⟩
    · conv_lhs => rw [← htext, ← hmarked, ← hrest]
      simp only [List.append_assoc]
    · rw [Text.size_append, hindent, hhashes, Nat.add_assoc]
    · rw [hgap]
    · have hlast := List.mem_takeWhile_imp (List.getLast_mem hne)
      rw [beq_iff_eq] at hlast
      refine ⟨'#', ?_, by decide⟩
      simp [List.getLast?_append, List.getLast?_eq_some_getLast hne, hlast]
    · have hfirst := List.head?_eq_some_head hwide.2
      exact ⟨_, hfirst, hbehind _ hfirst⟩

theorem harmless_findings (hctx : ctx.Views source) (h : findings ctx heading = .ok found)
    (hd : d ∈ found) : d.Harmless ctx p source := by
  unfold findings at h
  split at h
  · obtain rfl := Except.ok.inj h
    cases hd
  · obtain ⟨line, -, h⟩ := bind_eq_ok_iff.mp h
    obtain ⟨text, htext, h⟩ := bind_eq_ok_iff.mp h
    obtain ⟨gap, hgap, h⟩ := bind_eq_ok_iff.mp h
    cases gap with
    | none =>
      obtain rfl := Except.ok.inj h
      cases hd
    | some span =>
      obtain rfl := Except.ok.inj h
      obtain rfl := List.mem_singleton.mp hd
      obtain ⟨a, b, hsource, hstart⟩ := hctx.exists_of_slice htext
      obtain ⟨before, blanks, behind, rfl, hspanStart, hspanStop, hblanks, -, -⟩ :=
        exists_split_of_gap? hgap
      have ha : span.start = (a ++ before).size := by rw [hspanStart, hstart, Text.size_append]
      refine Diagnostic.harmless_report (Edit.harmless_replaceSpan (a ++ before) blanks (behind ++ b)
        (by rw [hsource]; simp) ha (ha ▸ hspanStop) ?_ (List.forall_mem_singleton.mpr rfl))
      intro c hc
      exact .inl (Text.isWhitespace_of_isSpaceOrTab (hblanks c hc))

theorem harmless_rule : (rule : Rule m).Harmless q := by
  refine Rule.harmless_ofSteps fun ctx source hctx list hlist part hpart d hd => ?_
  obtain rfl := Except.ok.inj hlist
  obtain ⟨heading, -, hpart⟩ := List.mem_map.mp hpart
  exact harmless_findings hctx hpart hd

end HashGap

namespace HeadingBlanks

theorem harmless_insert_start {line : Line} (hctx : ctx.Views source)
    (hline : line ∈ ctx.snapshot.lines) : (Edit.insert line.start ['\n']).Harmless p source := by
  obtain ⟨a, b, hsource, hstart⟩ := hctx.exists_around hline
  refine Edit.harmless_insert a (line.text ++ line.terminator ++ b) ?_ hstart
    (List.forall_mem_singleton.mpr rfl)
  rw [hsource]
  simp

theorem harmless_insert_stop {line : Line} (hctx : ctx.Views source)
    (hline : line ∈ ctx.snapshot.lines) : (Edit.insert line.stop ['\n']).Harmless p source := by
  obtain ⟨a, b, hsource, hstart⟩ := hctx.exists_around hline
  refine Edit.harmless_insert (a ++ line.text ++ line.terminator) b hsource ?_
    (List.forall_mem_singleton.mpr rfl)
  simp only [Line.stop, Line.newlineStart, hstart, Text.size_append]

/-- Above a line that there is, but for the first one, there is another. -/
theorem lineAbove_eq {i : Nat} {line : Line} (h : ctx.snapshot.lines[i]? = some line) :
    lineAbove ctx i = .ok (if i = 0 then none else ctx.snapshot.lines[i - 1]?) := by
  unfold lineAbove
  split
  · rfl
  · have hlt := (List.getElem?_eq_some_iff.mp h).1
    have habove : ctx.snapshot.lines[i - 1]? = some ctx.snapshot.lines[i - 1] :=
      List.getElem?_eq_getElem (by omega)
    rw [RuleContext.line, habove]
    rfl

theorem harmless_findings (hctx : ctx.Views source) (h : findings ctx heading = .ok found)
    (hd : d ∈ found) : d.Harmless ctx p source := by
  obtain ⟨first, hfirst, h⟩ := bind_eq_ok_iff.mp h
  obtain ⟨above, -, h⟩ := bind_eq_ok_iff.mp h
  obtain ⟨last, hlast, h⟩ := bind_eq_ok_iff.mp h
  obtain rfl := Except.ok.inj h
  rcases List.mem_append.mp hd with hd | hd
  · unfold findingsAbove at hd
    split at hd
    · cases hd
    · split at hd
      · cases hd
      · obtain rfl := List.mem_singleton.mp hd
        exact Diagnostic.harmless_report
          (harmless_insert_start hctx (RuleContext.mem_of_line hfirst))
  · unfold findingsBelow at hd
    split at hd
    · obtain rfl := List.mem_singleton.mp hd
      exact Diagnostic.harmless_report (harmless_insert_stop hctx (RuleContext.mem_of_line hlast))
    · cases hd

theorem harmless_rule : (rule : Rule m).Harmless q := by
  refine Rule.harmless_ofSteps fun ctx source hctx list hlist part hpart d hd => ?_
  obtain rfl := Except.ok.inj hlist
  obtain ⟨heading, -, hpart⟩ := List.mem_map.mp hpart
  exact harmless_findings hctx hpart hd

end HeadingBlanks

namespace HeadingIndent

theorem harmless_findings (hctx : ctx.Views source) (h : findings ctx heading = .ok found)
    (hd : d ∈ found) : d.Harmless ctx p source := by
  obtain ⟨line, hline, h⟩ := bind_eq_ok_iff.mp h
  split at h
  · obtain rfl := Except.ok.inj h
    cases hd
  · obtain rfl := Except.ok.inj h
    obtain rfl := List.mem_singleton.mp hd
    obtain ⟨a, b, hsource, hstart⟩ := hctx.exists_around (RuleContext.mem_of_line hline)
    obtain ⟨rest, hrest⟩ := line.indentation_isPrefix
    refine Diagnostic.harmless_report (Edit.harmless_deleteSpan a line.indentation
      (rest ++ line.terminator ++ b) ?_ hstart (hstart ▸ rfl) ?_)
    · rw [hsource, ← hrest]
      simp
    · intro c hc
      exact .inl (Line.isWhitespace_of_mem_indentation hc)

theorem harmless_rule : (rule : Rule m).Harmless q := by
  refine Rule.harmless_ofSteps fun ctx source hctx list hlist part hpart d hd => ?_
  obtain rfl := Except.ok.inj hlist
  obtain ⟨heading, -, hpart⟩ := List.mem_map.mp hpart
  exact harmless_findings hctx hpart hd

end HeadingIndent

namespace HeadingPunctuation

/-- The characters that the options forbid at the end of a heading. -/
def punctuation (options : Json) : Text :=
  match options.get? "punctuation" with
  | none | some .null => defaultPunctuation.toList
  | some value => (value.asStr?.getD "").toList

theorem eq_punctuation {s : String}
    (h : ctx.stringOption "punctuation" defaultPunctuation = .ok s) :
    s.toList = punctuation ctx.options := by
  unfold RuleContext.stringOption RuleContext.option at h
  unfold punctuation
  split at h
  · obtain rfl := Except.ok.inj h
    simp [*]
  · obtain rfl := Except.ok.inj h
    simp [*]
  · split at h
    · obtain rfl := Except.ok.inj h
      simp [*]
    · cases h

theorem content_isPrefix (text : Text) : content text <+: text := by
  simp only [content]
  split
  · exact (Text.trimEndBy_isPrefix _ _).trans ((Text.trimEndBy_isPrefix _ _).trans (Text.trimEndBy_isPrefix _ _))
  · exact Text.trimEndBy_isPrefix _ _

/-- What counts as the text of a heading is a first part of what its line holds. -/
theorem trimmed_isPrefix (heading : Heading) (text : Text) :
    (if heading.setext = true then trimEndBy isWhitespace text else content text) <+: text := by
  split
  · exact Text.trimEndBy_isPrefix _ _
  · exact content_isPrefix text

theorem harmless_findings {forbidden : Text} (hctx : ctx.Views source)
    (h : findings ctx forbidden heading = .ok found) (hd : d ∈ found) :
    d.Harmless ctx (· ∈ forbidden) source := by
  obtain ⟨line, -, h⟩ := bind_eq_ok_iff.mp h
  obtain ⟨text, htext, h⟩ := bind_eq_ok_iff.mp h
  have hprefix := trimmed_isPrefix heading text
  simp only at h
  generalize (if heading.setext = true then _ else content text) = trimmed at h hprefix
  split at h
  · obtain rfl := Except.ok.inj h
    cases hd
  · obtain ⟨named, -, h⟩ := bind_eq_ok_iff.mp h
    split at h
    · obtain rfl := Except.ok.inj h
      cases hd
    obtain ⟨ending, -, h⟩ := bind_eq_ok_iff.mp h
    obtain rfl := Except.ok.inj h
    obtain rfl := List.mem_singleton.mp hd
    obtain ⟨a, b, hsource, hstart⟩ := hctx.exists_of_slice htext
    obtain ⟨rest, rfl⟩ := hprefix
    obtain ⟨s, hs, hforbidden⟩ := Text.exists_eq_trimEndBy_append forbidden.contains trimmed
    have hsize := congrArg Text.size hs
    rw [Text.size_append] at hsize
    refine Diagnostic.harmless_report (Edit.harmless_deleteSpan
      (a ++ trimEndBy forbidden.contains trimmed) s (rest ++ b) ?_ ?_ ?_ ?_)
    · conv_lhs => rw [hsource, hs]
      simp only [List.append_assoc]
    · rw [hstart, Text.size_append]
    · simp only [hstart, Text.size_append, hsize, Nat.add_assoc]
    · intro c hc
      exact .inr (List.contains_iff_mem.mp (hforbidden c hc))

theorem harmless_rule :
    (rule : Rule m).Harmless fun options c => c ∈ punctuation options := by
  refine Rule.harmless_ofSteps fun ctx source hctx list hlist part hpart d hd => ?_
  obtain ⟨s, hs, hlist⟩ := bind_eq_ok_iff.mp hlist
  obtain rfl := Except.ok.inj hlist
  obtain ⟨heading, -, hpart⟩ := List.mem_map.mp hpart
  rw [eq_punctuation hs] at hpart
  exact harmless_findings hctx hpart hd

end HeadingPunctuation

namespace FirstHeading

/-- This rule has no fix. -/
theorem harmless_findings {level : Nat} (h : findings ctx level = .ok found) (hd : d ∈ found) :
    d.Harmless ctx p source := by
  unfold findings at h
  split at h
  · obtain rfl := Except.ok.inj h
    cases hd
  · obtain ⟨found, -, h⟩ := bind_eq_ok_iff.mp h
    split at h
    · obtain rfl := Except.ok.inj h
      cases hd
    · obtain ⟨line, -, h⟩ := bind_eq_ok_iff.mp h
      obtain rfl := Except.ok.inj h
      obtain rfl := List.mem_singleton.mp hd
      exact Diagnostic.harmless_report_nil

theorem harmless_rule : (rule : Rule m).Harmless q := by
  refine Rule.harmless_ofSteps fun ctx source hctx list hlist part hpart d hd => ?_
  obtain ⟨level, -, hlist⟩ := bind_eq_ok_iff.mp hlist
  split at hlist
  · cases hlist
  · obtain rfl := Except.ok.inj hlist
    exact harmless_findings (List.mem_singleton.mp hpart).symm hd

end FirstHeading
end Tidymark.Rules
