import Tidymark.Proofs.Edit.Linewise
import Tidymark.Proofs.Line.Neighbours
import Tidymark.Proofs.Line.Pieces
import Tidymark.Proofs.Repetition
import Tidymark.Proofs.Rule.Fixing
import Tidymark.Proofs.Rules.Lines

/-! # Runs of blank lines are cut short

What the fix of the rule for blank runs makes of a text as a whole. The lines of a text fall into
the longest runs of lines that are blank outside of code, and into runs of other lines. The rule
counts along the lines; over a whole run the count says which of its lines stay, the first ones. In
prose the lines that stay are the lines of what is left, and the count along them goes on as far as
before, but not behind the maximum. -/
namespace Tidymark.Rules.BlankRuns

open EditPlan (Turns)

/-- Whether the line belongs to a run of blank lines: it is blank, and not in code. -/
def isLoose (line : Line) : Bool := line.isBlank && !line.verbatim

/-- The lines without those that come behind the first `maximum` of a run of blank lines. -/
def thinned (maximum : Nat) (lines : List Line) : List Line :=
  (lines.splitBy fun k l => isLoose k == isLoose l).flatMap fun run =>
    if run.all isLoose then run.take maximum else run

/-- The lines that the rule does not report, if the line above them has the place `before`. -/
def kept (maximum before : Nat) (lines : List Line) : List Line :=
  ((withPlace before lines).filter fun p => p.2 ≤ maximum).map Prod.fst

variable {ctx : RuleContext} {source : Text} {line : Line} {run lines rest : List Line}
variable {maximum before : Nat}

theorem withPlace_cons (before : Nat) (line : Line) (rest : List Line) :
    withPlace before (line :: rest) =
      (line, if isLoose line then before + 1 else 0) ::
        withPlace (if isLoose line then before + 1 else 0) rest := by
  have hplace : (if !line.isBlank || line.verbatim then 0 else before + 1) =
      if isLoose line then before + 1 else 0 := by
    cases hblank : line.isBlank <;> cases hverbatim : line.verbatim <;> simp [isLoose, *]
  simp only [withPlace, hplace]

theorem map_fst_withPlace (before : Nat) (lines : List Line) :
    (withPlace before lines).map Prod.fst = lines := by
  induction lines generalizing before with
  | nil => rfl
  | cons line rest ih => rw [withPlace_cons, List.map_cons, ih]

theorem kept_cons (maximum before : Nat) (line : Line) (rest : List Line) :
    kept maximum before (line :: rest) =
      if isLoose line then
        if before + 1 ≤ maximum then line :: kept maximum (before + 1) rest
        else kept maximum (before + 1) rest
      else line :: kept maximum 0 rest := by
  rw [kept, withPlace_cons]
  by_cases hloose : isLoose line = true
  · by_cases hle : before + 1 ≤ maximum
    · simp [kept, hloose, hle]
    · simp [kept, hloose, hle]
  · simp [kept, hloose]

/-- Of a run of blank lines, those stay whose places are not used up yet. -/
theorem kept_append_of_loose (hrun : ∀ l ∈ run, isLoose l = true) (maximum before : Nat)
    (rest : List Line) :
    kept maximum before (run ++ rest) =
      run.take (maximum - before) ++ kept maximum (before + run.length) rest := by
  induction run generalizing before with
  | nil => simp
  | cons line run ih =>
    rw [List.cons_append, kept_cons, if_pos (hrun line (by simp)),
      ih (fun l hl => hrun l (by simp [hl])) (before + 1), List.length_cons, Nat.add_assoc before 1,
      Nat.add_comm 1]
    split
    · rw [show maximum - before = maximum - (before + 1) + 1 by omega, List.take_succ_cons,
        List.cons_append]
    · rw [show maximum - before = 0 by omega, show maximum - (before + 1) = 0 by omega,
        List.take_zero, List.take_zero]

theorem kept_append_of_tight (hrun : ∀ l ∈ run, isLoose l = false) (hne : run ≠ [])
    (maximum before : Nat) (rest : List Line) :
    kept maximum before (run ++ rest) = run ++ kept maximum 0 rest := by
  induction run generalizing before with
  | nil => exact absurd rfl hne
  | cons line run ih =>
    rw [List.cons_append, kept_cons, hrun line (by simp), if_neg Bool.false_ne_true]
    cases run with
    | nil => rfl
    | cons next run => rw [ih (fun l hl => hrun l (by simp [hl])) (List.cons_ne_nil _ _) 0]; rfl

/-- At their borders runs differ. -/
def Alternate (runs : List (List Line)) : Prop :=
  runs.IsChain fun run next => ∃ hrun hnext, isLoose (run.getLast hrun) ≠ isLoose (next.head hnext)

theorem Alternate.isLoose_head? {runs : List (List Line)} (h : Alternate (run :: runs))
    (hrun : ∀ l ∈ run, isLoose l = true) : ∀ l ∈ runs.flatten.head?, isLoose l = false := by
  cases runs with
  | nil => simp
  | cons next runs =>
    obtain ⟨hne, hnext, hturn⟩ := (List.isChain_cons_cons.mp h).1
    obtain ⟨first, others, rfl⟩ := List.exists_cons_of_ne_nil hnext
    rw [hrun _ (List.getLast_mem hne), List.head_cons] at hturn
    intro l hl
    obtain rfl : first = l := by simpa using hl
    exact Bool.eq_false_iff.mpr (Ne.symm hturn)

/-- The count starts again with each run, as a run of other lines stands between two of blank
ones. -/
theorem kept_flatten {runs : List (List Line)} (hne : ∀ run ∈ runs, run ≠ [])
    (hlevel : ∀ run ∈ runs, ∀ k ∈ run, ∀ l ∈ run, isLoose k = isLoose l)
    (halternate : Alternate runs) (hbefore : before = 0 ∨ ∀ l ∈ runs.flatten.head?, isLoose l = false) :
    kept maximum before runs.flatten =
      runs.flatMap fun run => if run.all isLoose then run.take maximum else run := by
  induction runs generalizing before with
  | nil => rfl
  | cons run runs ih =>
    have ih := fun before => @ih before (fun r hr => hne r (by simp [hr]))
      (fun r hr => hlevel r (by simp [hr])) halternate.tail
    obtain ⟨first, others, hrun⟩ := List.exists_cons_of_ne_nil (hne run (by simp))
    have hfirst : first ∈ run := by simp [hrun]
    have hall : ∀ l ∈ run, isLoose l = isLoose first := fun l hl =>
      hlevel run (by simp) l hl first hfirst
    rw [List.flatten_cons, List.flatMap_cons]
    cases hloose : isLoose first with
    | true =>
      rw [hloose] at hall
      obtain rfl : before = 0 := by
        refine hbefore.resolve_right fun h => ?_
        have htight := h first (by simp [hrun])
        rw [hloose] at htight
        cases htight
      rw [kept_append_of_loose hall, ih _ (.inr (halternate.isLoose_head? hall)),
        if_pos (List.all_eq_true.mpr hall), Nat.sub_zero]
    | false =>
      rw [hloose] at hall
      have hnot : ¬ run.all isLoose = true := fun h => by
        rw [List.all_eq_true.mp h first hfirst] at hloose
        cases hloose
      rw [kept_append_of_tight hall (hne run (by simp)), ih _ (.inl rfl), if_neg hnot]

theorem kept_eq_thinned (maximum : Nat) (lines : List Line) :
    kept maximum 0 lines = thinned maximum lines := by
  conv_lhs => rw [← List.flatten_splitBy (fun k l => isLoose k == isLoose l) lines]
  exact kept_flatten (fun _ => List.ne_nil_of_mem_splitBy)
    (fun _ hrun _ hk _ hl => eq_of_mem_splitBy hrun hk hl) (isChain_splitBy isLoose lines) (.inl rfl)

/-- To delete the lines whose place is behind the maximum. -/
def cuts (maximum : Nat) (p : Line × Nat) : List Edit :=
  if maximum < p.2 then [.deleteSpan p.1.span] else []

theorem turns_cuts (maximum : Nat) (p : Line × Nat) :
    Turns p.1.start p.1.whole (cuts maximum p) (if maximum < p.2 then [] else p.1.whole) := by
  unfold cuts
  split
  · have h : Turns p.1.start ([] ++ p.1.whole ++ []) [.deleteSpan p.1.span] ([] ++ [] ++ []) :=
      .edit rfl p.1.stop_eq (.done _ _)
    simpa using h
  · exact .done _ _

theorem flatMap_withPlace (maximum before : Nat) (lines : List Line) :
    ((withPlace before lines).flatMap fun p => if maximum < p.2 then [] else p.1.whole) =
      (kept maximum before lines).flatMap Line.whole := by
  rw [kept]
  induction withPlace before lines with
  | nil => rfl
  | cons p ps ih =>
    rw [List.flatMap_cons, ih]
    by_cases hlt : maximum < p.2
    · rw [if_pos hlt, List.filter_cons_of_neg (by simpa using hlt), List.nil_append]
    · rw [if_neg hlt, List.filter_cons_of_pos (by simpa using hlt), List.map_cons,
        List.flatMap_cons]

theorem edits_findings (ctx : RuleContext) (maximum : Nat) (p : Line × Nat) :
    (findings ctx maximum p.1 p.2).flatMap (·.edits) = cuts maximum p := by
  unfold findings cuts
  split
  · rfl
  · rfl

def findingsOf (ctx : RuleContext) (maximum : Nat) (lines : List Line) : List Diagnostic :=
  (withPlace 0 lines).flatMap fun p => findings ctx maximum p.1 p.2

theorem run_rule (hmaximum : ctx.countOption "maximum" 1 = .ok maximum) :
    Id.run ((rule : Rule Id).check ctx).run =
      .ok (findingsOf ctx maximum ctx.snapshot.lines) := by
  rw [findingsOf, List.flatMap_def]
  refine Rule.run_ofSteps ?_
  rw [steps, hmaximum, List.map_map]
  rfl

theorem prepareStrictly_findingsOf (ctx : RuleContext) (maximum : Nat)
    (htiles : Line.Tiles 0 source lines) (hproper : ∀ l ∈ lines, l.start < l.stop) :
    ∃ plan, EditPlan.prepareStrictly source
        ((findingsOf ctx maximum lines).flatMap (·.edits)) = .ok plan ∧
      plan.applyTo? source = some ((kept maximum 0 lines).flatMap Line.whole) := by
  have hedits : (findingsOf ctx maximum lines).flatMap (·.edits) =
      (withPlace 0 lines).flatMap (cuts maximum) := by
    simp only [findingsOf, List.flatMap_assoc, edits_findings]
  have htakes : ∀ p ∈ withPlace 0 lines, ∀ e ∈ cuts maximum p, e.start ≠ e.stop := by
    intro p hp e he
    have hline := hproper p.1 (of_mem_withPlace hp).1
    unfold cuts at he
    split at he
    · obtain rfl := List.mem_singleton.mp he
      exact Nat.ne_of_lt hline
    · cases he
  rw [hedits, ← flatMap_withPlace]
  exact EditPlan.exists_plan_of_tiles ((map_fst_withPlace 0 lines).symm ▸ htiles)
    (fun p _ => turns_cuts maximum p) htakes

/-- The fix of the rule deletes the lines that come behind the first ones of a longest run of lines
that are blank outside of code, as many as the options allow, and keeps all others, in their order
and with their terminators. -/
theorem thins_rule (hctx : ctx.Views source)
    (hmaximum : ctx.countOption "maximum" 1 = .ok maximum) :
    ∃ found plan, Id.run ((rule : Rule Id).check ctx).run = .ok found ∧
      EditPlan.prepareStrictly source (found.flatMap (·.edits)) = .ok plan ∧
      plan.applyTo? source = some ((thinned maximum ctx.snapshot.lines).flatMap Line.whole) := by
  obtain ⟨plan, hplan, happly⟩ := prepareStrictly_findingsOf ctx maximum hctx.tiles
    fun line hline => hctx.start_lt_stop hline
  rw [kept_eq_thinned] at happly
  exact ⟨_, plan, run_rule hmaximum, hplan, happly⟩

/-- A blank line of code between two runs, the last of which ends without a terminator. -/
theorem thins_rule_code :
    let source : Text := ['a', '\n', '\n', ' ', '\n', '\n', '\n', ' ', ' ']
    let root : Node := .branch .root ⟨0, 9⟩ [.literal .code ⟨5, 6⟩ [] (.code none false)]
    let ctx : RuleContext :=
      ⟨.ofTree "a.md" source root, "MD012", "no-multiple-blanks", .error,
        .obj [("maximum", .int 1)]⟩
    ∃ found plan, Id.run ((rule : Rule Id).check ctx).run = .ok found ∧
      EditPlan.prepareStrictly source (found.flatMap (·.edits)) = .ok plan ∧
      plan.applyTo? source = some ['a', '\n', '\n', '\n', '\n'] := by
  intro source root ctx
  have hmaximum : ctx.countOption "maximum" 1 = .ok 1 := by rfl
  have hfixed : (thinned 1 ctx.snapshot.lines).flatMap Line.whole =
      ['a', '\n', '\n', '\n', '\n'] := by rfl
  rw [← hfixed]
  exact thins_rule ⟨"a.md", root, rfl⟩ hmaximum

theorem kept_sublist (maximum before : Nat) (lines : List Line) :
    (kept maximum before lines).Sublist lines := by
  conv_rhs => rw [← map_fst_withPlace before lines]
  exact List.filter_sublist.map Prod.fst

/-- The lines that stay have places up to the maximum, wherever they are: the lines that go used up
no place of theirs. -/
theorem place_le_of_kept {again : List Line}
    (h : again.map isLoose = (kept maximum before lines).map isLoose) :
    ∀ p ∈ withPlace (min before maximum) again, p.2 ≤ maximum := by
  induction lines generalizing before again with
  | nil =>
    obtain rfl := List.map_eq_nil_iff.mp h
    simp [withPlace]
  | cons line lines ih =>
    rw [kept_cons] at h
    split at h
    · rename_i hloose
      split at h
      · rename_i hle
        obtain ⟨first, rest, rfl, hfirst, hrest⟩ := List.map_eq_cons_iff.mp h
        have ih := ih hrest
        rw [Nat.min_eq_left hle] at ih
        rw [Nat.min_eq_left (Nat.le_of_succ_le hle), withPlace_cons, hfirst, hloose, if_pos rfl]
        exact List.forall_mem_cons.mpr ⟨hle, ih⟩
      · have ih := ih h
        rw [Nat.min_eq_right (by omega)] at ih ⊢
        exact ih
    · rename_i htight
      obtain ⟨first, rest, rfl, hfirst, hrest⟩ := List.map_eq_cons_iff.mp h
      have ih := ih hrest
      rw [Nat.zero_min] at ih
      rw [withPlace_cons, hfirst, if_neg htight]
      exact List.forall_mem_cons.mpr ⟨Nat.zero_le _, ih⟩

theorem isLoose_ofPiece (start : Nat) (p : Text) :
    isLoose (Line.ofPiece start p) = p.all Text.isWhitespace := by
  rw [← Line.isBlank_ofPiece start p]
  exact Bool.and_true _

/-- The lines that stay are read again, each as blank as before. -/
theorem map_isLoose_kept (maximum : Nat) (source : Text) :
    (Line.ofText ((kept maximum 0 (Line.ofText source)).flatMap Line.whole)).map isLoose =
      (kept maximum 0 (Line.ofText source)).map isLoose := by
  have hsub := kept_sublist maximum 0 (Line.ofText source)
  generalize kept maximum 0 (Line.ofText source) = lines at hsub
  have hpieces : (lines.map Line.whole).Sublist (Line.pieces source) := by
    rw [← Line.map_whole_layOut 0 (Line.pieces source)]
    exact hsub.map Line.whole
  have hclosed := (Line.closed_pieces source).sublist hpieces
  rw [Line.ofText, List.flatMap_def,
    hclosed.pieces_flatten_eq_self fun p hp => Line.ne_nil_of_mem_pieces (hpieces.subset hp)]
  have hlayOut : ∀ start (ps : List Text), (Line.layOut start ps).map isLoose =
      ps.map (·.all Text.isWhitespace) := by
    intro start ps
    induction ps generalizing start with
    | nil => rfl
    | cons p ps ih => rw [Line.layOut, List.map_cons, isLoose_ofPiece, ih, List.map_cons]
  rw [hlayOut, List.map_map]
  refine List.map_congr_left fun line hline => ?_
  obtain ⟨start, p, -, rfl⟩ := Line.mem_layOut (hsub.subset hline)
  rw [Function.comp_apply, Line.whole_ofPiece, isLoose_ofPiece]

theorem findingsOf_eq_nil (ctx : RuleContext) (h : ∀ p ∈ withPlace 0 lines, p.2 ≤ maximum) :
    findingsOf ctx maximum lines = [] :=
  List.flatMap_eq_nil_iff.mpr fun p hp => if_neg (Nat.not_lt.mpr (h p hp))

theorem settles {rule : ActiveRule Id} (hrule : rule.rule = BlankRuns.rule)
    (hmaximum : ∀ s, (rule.context s).countOption "maximum" 1 = .ok maximum) (source : Text) :
    rule.Settles source ((kept maximum 0 (Line.ofText source)).flatMap Line.whole) := by
  refine .of_lines (fun ctx => findingsOf ctx maximum ctx.snapshot.lines) (fun s _ _ => ?_)
    (fun ctx hctx hlines => ?_) fun ctx _ hlines => ?_
  · rw [ActiveRule.check, hrule]
    exact run_rule (hmaximum s)
  · rw [← hlines]
    exact prepareStrictly_findingsOf ctx maximum hctx.tiles fun _ hline => hctx.start_lt_stop hline
  · have hplaces := place_le_of_kept (map_isLoose_kept maximum source)
    rw [Nat.zero_min, ← hlines] at hplaces
    exact findingsOf_eq_nil ctx hplaces

end Tidymark.Rules.BlankRuns
