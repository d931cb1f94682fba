import Tidymark.Proofs.Rules.LineEnds

/-! # Lines are stripped

What the fix of the rule for trailing spaces makes of a text as a whole: each line loses the spaces
and tabs at its end, unless it is verbatim or they are a hard break. Whether they are hangs on the
line itself and on the one below it. -/
namespace Tidymark.Rules.TrailingSpaces

open Text (isSpaceOrTab trimEndBy)

/-- A hard break of `width` spaces: the line ends in exactly these, and goes on below. -/
structure IsBreak (width : Nat) (line : Line) (next : Option Line) : Prop where
  wide : 2 ≤ width
  visible : line.isBlank = false
  spaces : line.text.rtakeWhile isSpaceOrTab = List.replicate width ' '
  continued : ∃ l ∈ next, l.isBlank = false ∧ l.verbatim = false

variable {ctx : RuleContext} {source : Text} {line : Line} {next : Option Line} {width : Nat}

theorem trailing_eq_rtakeWhile (t : Text) : trailing t = t.rtakeWhile isSpaceOrTab := by
  have h : trimEndBy isSpaceOrTab t ++ t.rtakeWhile isSpaceOrTab = t :=
    List.rdropWhile_append_rtakeWhile
  have hdrop : trimEndBy isSpaceOrTab t ++ trailing t = t := List.prefix_iff_eq_append.mp ⟨_, h⟩
  exact List.append_cancel_left (hdrop.trans h.symm)

theorem isHardBreak_iff :
    isHardBreak width line next (trailing line.text) = true ↔ IsBreak width line next := by
  have hspaces :
      ((trailing line.text).size == width && (trailing line.text).all (· == ' ')) = true ↔
        line.text.rtakeWhile isSpaceOrTab = List.replicate width ' ' := by
    rw [← trailing_eq_rtakeWhile, List.eq_replicate_iff, Bool.and_eq_true, beq_iff_eq,
      List.all_eq_true]
    simp only [beq_iff_eq]
    refine and_congr_left fun hspaces => ?_
    rw [Text.size_eq_length fun c hc => by rw [hspaces c hc]; rfl]
  have hcontinued : goesOn next = true ↔ ∃ l ∈ next, l.isBlank = false ∧ l.verbatim = false := by
    simp [goesOn, Option.any_eq_true]
  rw [isHardBreak_eq, Bool.and_eq_true, Bool.and_assoc, Bool.and_eq_true, hspaces, hcontinued]
  simp only [Bool.and_eq_true, decide_eq_true_eq, Bool.not_eq_true']
  constructor
  · rintro ⟨⟨⟨hwide, hvisible⟩, hspaces⟩, hcontinued⟩
    exact ⟨hwide, hvisible, hspaces, hcontinued⟩
  · rintro ⟨hwide, hvisible, hspaces, hcontinued⟩
    exact ⟨⟨⟨hwide, hvisible⟩, hspaces⟩, hcontinued⟩

instance (width : Nat) (line : Line) (next : Option Line) : Decidable (IsBreak width line next) :=
  decidable_of_iff _ isHardBreak_iff

/-- The text of the line without the spaces and tabs at its end, if these may go. -/
def strip (width : Nat) (line : Line) (next : Option Line) : Text :=
  if line.verbatim = true ∨ IsBreak width line next then line.text
  else line.text.rdropWhile isSpaceOrTab

theorem isCut_iff : isCut width line next = true ↔
    ¬ (line.verbatim = true ∨ IsBreak width line next) ∧ line.text.rtakeWhile isSpaceOrTab ≠ [] := by
  rw [← isHardBreak_iff, ← trailing_eq_rtakeWhile, isCut, Bool.not_eq_true', Bool.or_eq_false_iff,
    Bool.or_eq_false_iff, not_or, Bool.not_eq_true, Bool.not_eq_true, List.isEmpty_eq_false_iff]
  constructor
  · rintro ⟨⟨hplain, hne⟩, hbreak⟩
    exact ⟨⟨hplain, hbreak⟩, hne⟩
  · rintro ⟨⟨hplain, hbreak⟩, hne⟩
    exact ⟨⟨hplain, hne⟩, hbreak⟩

theorem left_eq_strip (width : Nat) (line : Line) (next : Option Line) :
    left width line next = strip width line next := by
  unfold left strip
  by_cases hstays : line.verbatim = true ∨ IsBreak width line next
  · rw [if_pos hstays, if_neg fun hcut => (isCut_iff.mp hcut).1 hstays]
  · rw [if_neg hstays]
    split
    · rfl
    · rename_i hcut
      have hnone : line.text.rtakeWhile isSpaceOrTab = [] := by
        by_contra hne
        exact hcut (isCut_iff.mpr ⟨hstays, hne⟩)
      have hends : line.text.rdropWhile isSpaceOrTab ++ line.text.rtakeWhile isSpaceOrTab =
          line.text := List.rdropWhile_append_rtakeWhile
      rw [hnone, List.append_nil] at hends
      exact hends.symm

theorem map_withNext {α : Type} (f : Line → Option Line → α) (lines : List Line) :
    (withNext lines).map (fun p => f p.1 p.2) =
      lines.mapIdx fun i line => f line lines[i + 1]? := by
  induction lines generalizing f with
  | nil => rfl
  | cons line lines ih =>
    rw [withNext, List.map_cons, List.mapIdx_cons, ih]
    simp [List.head?_eq_getElem?]

/-- The fix of the rule takes away the longest end of spaces and tabs of the text of each line that
is not verbatim, unless it is a hard break, and changes nothing else. -/
theorem strips_rule (hctx : ctx.Views source)
    (hwidth : ctx.countOption "br_spaces" 2 = .ok width) :
    ∃ found plan, Id.run ((rule : Rule Id).check ctx).run = .ok found ∧
      EditPlan.prepareStrictly source (found.flatMap (·.edits)) = .ok plan ∧
      plan.applyTo? source = some (ctx.snapshot.lines.mapIdx fun i line =>
        strip width line ctx.snapshot.lines[i + 1]? ++ line.terminator).flatten := by
  obtain ⟨plan, hplan, happly⟩ := prepareStrictly_of_tiles ctx width hctx.tiles
  rw [strippedPieces, map_withNext fun line next => left width line next ++ line.terminator]
    at happly
  simp only [left_eq_strip] at happly
  exact ⟨_, plan, run_rule hctx hwidth, hplan, happly⟩

/-- Two spaces are kept only on the first line: the others end in something else, or a blank line,
code or nothing comes below them. -/
theorem strips_rule_code :
    let source : Text := ['é', ' ', ' ', '\n', 'b', ' ', '\t', '\r', '\n', 'c', ' ', ' ', '\n',
      ' ', '\n', 'd', ' ', ' ', '\n', 'x', ' ', ' ', '\n', 'e', ' ', ' ']
    let root : Node := .branch .root ⟨0, 27⟩ [.literal .code ⟨20, 23⟩ ['x'] (.code none false)]
    let ctx : RuleContext :=
      ⟨.ofTree "a.md" source root, "MD009", "no-trailing-spaces", .error,
        .obj [("br_spaces", .int 2)]⟩
    ∃ found plan, Id.run ((rule : Rule Id).check ctx).run = .ok found ∧
      EditPlan.prepareStrictly source (found.flatMap (·.edits)) = .ok plan ∧
      plan.applyTo? source = some ['é', ' ', ' ', '\n', 'b', '\r', '\n', 'c', '\n', '\n', 'd', '\n',
        'x', ' ', ' ', '\n', 'e'] := by
  intro source root ctx
  have hwidth : ctx.countOption "br_spaces" 2 = .ok 2 := by rfl
  have hfixed : (ctx.snapshot.lines.mapIdx fun i line =>
      strip 2 line ctx.snapshot.lines[i + 1]? ++ line.terminator).flatten =
        ['é', ' ', ' ', '\n', 'b', '\r', '\n', 'c', '\n', '\n', 'd', '\n', 'x', ' ', ' ', '\n',
          'e'] := by
    rfl
  rw [← hfixed]
  exact strips_rule ⟨"a.md", root, rfl⟩ hwidth

end Tidymark.Rules.TrailingSpaces
