import Tidymark.Rule

/-! # Hard tabs

Outside of code, every tab is replaced by `spaces_per_tab` spaces. Neighbouring tabs are one
finding. -/
namespace Tidymark.Rules.HardTabs

/-- The first run of tabs in a text. -/
def firstRun? (text : Text) : Except RuleError (Option Span) :=
  match text.find? '\t' with
  | none => .ok none
  | some start => do
    let tabs := ((← text.dropBytes start).takeWhile (· == '\t')).length
    return some ⟨start, start + tabs⟩

theorem stop_pos_of_firstRun? {text : Text} {run : Span} (h : firstRun? text = .ok (some run)) :
    0 < run.stop ∧ 0 < text.size := by
  unfold firstRun? at h
  split at h
  · cases h
  · rename_i start hstart
    obtain ⟨rest, hrest⟩ := Text.exists_drop?_of_find? hstart
    have hsize := Text.add_size_of_drop? hrest
    rw [Text.dropBytes, hrest] at h
    obtain rfl := Option.some.inj (Except.ok.inj h)
    have htab := '\t'.utf8Size_pos
    have htabs : (('\t' :: rest).takeWhile (· == '\t')).length =
        (rest.takeWhile (· == '\t')).length + 1 := rfl
    simp only [htabs, Text.size_cons] at hsize ⊢
    omega

/-- Behind a run there is less of the text to look at. -/
theorem size_sub_lt {text rest : Text} {offset : Nat} {run : Span}
    (hrest : text.dropBytes offset = .ok rest) (hrun : firstRun? rest = .ok (some run)) :
    text.size - (offset + run.stop) < text.size - offset := by
  obtain ⟨hstop, hsize⟩ := stop_pos_of_firstRun? hrun
  have hdrop := Text.add_size_of_dropBytes hrest
  omega

/-- The runs of tabs in a text from `offset` on. -/
def runsFrom (text : Text) (offset : Nat) : Except RuleError (List Span) :=
  match hrest : text.dropBytes offset with
  | .error error => .error error
  | .ok rest =>
    match hrun : firstRun? rest with
    | .error error => .error error
    | .ok none => .ok []
    | .ok (some run) => do
      have := size_sub_lt hrest hrun
      let others ← runsFrom text (offset + run.stop)
      return ⟨offset + run.start, offset + run.stop⟩ :: others
termination_by text.size - offset

def findings (ctx : RuleContext) (width : Nat) (line : Line) :
    Except RuleError (List Diagnostic) := do
  if line.verbatim then return []
  let runs ← runsFrom (← ctx.lineText line) 0
  return runs.map fun run =>
    let span : Span := ⟨line.start + run.start, line.start + run.stop⟩
    ctx.report span ("Hard tabs: " ++ toString run.length ++ " tab(s)")
      [.replaceSpan span (List.replicate (run.length * width) ' ')]

def steps (ctx : RuleContext) : Except RuleError (List (Except RuleError (List Diagnostic))) := do
  let width ← ctx.countOption "spaces_per_tab" 4
  return ctx.snapshot.lines.map (findings ctx width)

variable {m : Type → Type} [Monad m] [MonadCancel m]

def rule : Rule m := .ofSteps "MD010" "no-hard-tabs" "Hard tabs" true steps

end Tidymark.Rules.HardTabs
