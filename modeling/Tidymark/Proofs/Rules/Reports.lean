import Tidymark.Proofs.Rules.TabRuns
import Tidymark.Rules.HashSpace
import Tidymark.Rules.TrailingSpaces

/-! # What the rules for lines report

The rules that cut the text of a line never break down, whatever the source. What they report is
said here once more in terms of the line alone, as a list of characters in the place of cuts at
offsets. -/
namespace Tidymark.Rules

open Text (isSpaceOrTab isWhitespace trimEndBy)

variable {ctx : RuleContext} {source : Text} {line : Line}

namespace TrailingSpaces

/-- The spaces and tabs at the end of a text. -/
def trailing (text : Text) : Text := text.drop (trimEndBy isSpaceOrTab text).length

def reports (ctx : RuleContext) (width : Nat) (line : Line) (next : Option Line) :
    List Diagnostic :=
  let found := trailing line.text
  if line.verbatim || found.isEmpty || isHardBreak width line next found then []
  else
    let kept := trimEndBy isSpaceOrTab line.text
    let span : Span := ⟨line.start + Text.size kept, line.newlineStart⟩
    [ctx.report span ("Expected: 0 trailing spaces; Actual: " ++ toString found.size)
      [.deleteSpan span]]

theorem findings_eq (hctx : ctx.Views source) (hline : line ∈ ctx.snapshot.lines) (width : Nat)
    (next : Option Line) : findings ctx width line next = .ok (reports ctx width line next) := by
  have htext := hctx.lineText_eq hline
  have hcut : line.text.dropBytes (Text.size (trimEndBy isSpaceOrTab line.text)) =
      .ok (trailing line.text) :=
    Text.dropBytes_of_isPrefix (Text.trimEndBy_isPrefix isSpaceOrTab line.text)
  unfold findings reports
  by_cases hverbatim : line.verbatim = true
  · simp only [hverbatim, Bool.true_or, if_true]
    rfl
  · rw [if_neg hverbatim, htext]
    dsimp only [bind, Except.bind]
    rw [hcut]
    dsimp only
    by_cases hnone : ((trailing line.text).isEmpty ||
        isHardBreak width line next (trailing line.text)) = true
    · rw [if_pos hnone, if_pos (by rw [Bool.or_assoc, hnone, Bool.or_true])]
      rfl
    · rw [if_neg hnone, if_neg (by simpa [hverbatim] using hnone)]
      rfl

end TrailingSpaces

namespace HardTabs

def reports (ctx : RuleContext) (width : Nat) (line : Line) : List Diagnostic :=
  if line.verbatim then []
  else (tabRuns line.start line.text).map fun run =>
    ctx.report run ("Hard tabs: " ++ toString run.length ++ " tab(s)")
      [.replaceSpan run (List.replicate (run.length * width) ' ')]

theorem findings_eq (hctx : ctx.Views source) (hline : line ∈ ctx.snapshot.lines) (width : Nat) :
    findings ctx width line = .ok (reports ctx width line) := by
  have hruns : tabRuns line.start line.text = (tabRuns 0 line.text).map fun run =>
      ⟨line.start + run.start, line.start + run.stop⟩ := tabRuns_add 0 line.start line.text
  have hlength (run : Span) :
      Span.length ⟨line.start + run.start, line.start + run.stop⟩ = run.length :=
    Nat.add_sub_add_left ..
  unfold findings reports
  split
  · rfl
  · rw [hctx.lineText_eq hline, hruns, List.map_map]
    simp only [bind, Except.bind, runsFrom_zero, pure, Except.pure, Function.comp_def, hlength]

end HardTabs

namespace HashSpace

def reports (ctx : RuleContext) (line : Line) : List Diagnostic :=
  if line.verbatim || line.isBlank || 3 < line.indent then []
  else
    let content := line.text.drop line.indentation.length
    let hashes := (content.takeWhile (· == '#')).length
    if hashes < 1 || 6 < hashes then []
    else match content.drop hashes with
      | [] => []
      | next :: _ =>
        if isWhitespace next then []
        else
          let behind := line.contentStart + hashes
          [ctx.report ⟨line.contentStart, behind⟩ "No space after hash on atx style heading"
            [.insert behind [' ']]]

theorem findings_eq (hctx : ctx.Views source) (hline : line ∈ ctx.snapshot.lines) :
    findings ctx line = .ok (reports ctx line) := by
  have hindent : line.text.dropBytes line.indentBytes =
      .ok (line.text.drop line.indentation.length) :=
    Text.dropBytes_of_isPrefix line.indentation_isPrefix
  have hhashes := Text.dropBytes_takeWhile (fun _ => Text.utf8Size_of_eq_hash)
    (line.text.drop line.indentation.length)
  unfold findings reports
  split
  · rfl
  · rw [hctx.lineText_eq hline]
    dsimp only [bind, Except.bind]
    rw [hindent]
    dsimp only
    split
    · rfl
    · rw [hhashes]
      generalize (line.text.drop line.indentation.length).drop _ = rest
      cases rest with
      | nil => rfl
      | cons next rest =>
        dsimp only
        split <;> rfl

end HashSpace
end Tidymark.Rules
