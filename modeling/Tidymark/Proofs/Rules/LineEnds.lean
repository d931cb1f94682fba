import Tidymark.Proofs.Edit.Linewise
import Tidymark.Proofs.Line.Pieces
import Tidymark.Proofs.Rule.Fixing
import Tidymark.Proofs.Rules.Proposals
import Tidymark.Proofs.Text.Trim
import Tidymark.Proofs.Tree.Prose

/-! # The end of lines after a fix

The fix of the rule for trailing spaces cuts the end of one line after another. That leaves a line
which ends in a carriage return and a line feed where a lone carriage return was in front of the
blanks: from then on it belongs to the end of the line, and the blanks in front of it are new trailing
blanks. On all other lines there is nothing left to report. -/
namespace Tidymark.Rules.TrailingSpaces

open EditPlan (Turns)
open Text (isSpaceOrTab trimEndBy)

/-- Whether a hard break would break something: a line that goes on. -/
def goesOn (next : Option Line) : Bool := next.any fun l => !l.isBlank && !l.verbatim

/-- Whether the end of a line is taken out. -/
def isCut (width : Nat) (line : Line) (next : Option Line) : Bool :=
  !(line.verbatim || (trailing line.text).isEmpty ||
    isHardBreak width line next (trailing line.text))

/-- What is left of the text of a line. -/
def left (width : Nat) (line : Line) (next : Option Line) : Text :=
  if isCut width line next then trimEndBy isSpaceOrTab line.text else line.text

/-- The lines of a text without what is taken out of them. -/
def strippedPieces (width : Nat) (lines : List Line) : List Text :=
  (withNext lines).map fun p => left width p.1 p.2 ++ p.1.terminator

def stripped (width : Nat) (source : Text) : Text :=
  (strippedPieces width (Line.ofText source)).flatten

/-- What is left of the line ends in a carriage return that its line feed joins, with blanks in front
that are to be taken out, too. -/
def Exposes (width : Nat) (line : Line) (next : Option Line) : Prop :=
  isCut width line next = true ∧ line.terminator = ['\n'] ∧
    ∃ front, trimEndBy isSpaceOrTab line.text = front ++ ['\r'] ∧
      isCut width { line with text := front } next = true

variable {ctx : RuleContext} {source : Text} {line l k : Line} {next next' : Option Line}
variable {lines : List Line} {ps : List Text} {width : Nat}

theorem isHardBreak_eq (width : Nat) (line : Line) (next : Option Line) (found : Text) :
    isHardBreak width line next found = (2 ≤ width && !line.isBlank &&
      found.size == width && found.all (· == ' ') && goesOn next) := rfl

theorem isCut_congr (htext : k.text = l.text) (hverbatim : k.verbatim = l.verbatim)
    (hnext : goesOn next' = goesOn next) : isCut width k next' = isCut width l next := by
  simp only [isCut, isHardBreak_eq, Line.isBlank, htext, hverbatim, hnext]

theorem trailing_trimEndBy (t : Text) : trailing (trimEndBy isSpaceOrTab t) = [] := by
  rw [trailing, Text.trimEndBy_trimEndBy, List.drop_length]

theorem isCut_left (hk : k.text = left width line next) (hverbatim : k.verbatim = line.verbatim)
    (hnext : goesOn next' = goesOn next) : isCut width k next' = false := by
  unfold left at hk
  split at hk
  · rw [isCut, hk, trailing_trimEndBy]
    simp
  · rename_i hcut
    rw [isCut_congr hk hverbatim hnext]
    exact Bool.eq_false_iff.mpr hcut

theorem all_left (width : Nat) (line : Line) (next : Option Line) :
    (left width line next).all Text.isWhitespace = line.isBlank := by
  unfold left
  split
  · obtain ⟨s, hs, hblank⟩ := Text.exists_eq_trimEndBy_append isSpaceOrTab line.text
    have hs' : s.all Text.isWhitespace = true :=
      List.all_eq_true.mpr fun c hc => Text.isWhitespace_of_isSpaceOrTab (hblank c hc)
    rw [Line.isBlank]
    conv_rhs => rw [hs, List.all_append, hs', Bool.and_true]
  · rfl

theorem not_mem_left (h : '\n' ∉ line.text) : '\n' ∉ left width line next := by
  unfold left
  split
  · obtain ⟨s, hs, -⟩ := Text.exists_eq_trimEndBy_append isSpaceOrTab line.text
    exact fun hmem => h (hs ▸ List.mem_append_left s hmem)
  · exact h

/-- A line feed joins a carriage return only where blanks between them are taken out. -/
theorem exists_front_of_join (hends : line.Ends) (hlf : line.terminator = ['\n'])
    (hlast : (left width line next).getLast? = some '\r') :
    isCut width line next = true ∧ ∃ front, left width line next = front ++ ['\r'] ∧
      trimEndBy isSpaceOrTab line.text = front ++ ['\r'] ∧
      ∀ start, Line.ofPiece start (left width line next ++ line.terminator) =
        ⟨start, front, ['\r', '\n'], false⟩ := by
  have hcut : isCut width line next = true := by
    by_contra hcut
    rw [left, if_neg hcut] at hlast
    exact hends.getLast?_text_ne hlf hlast
  obtain ⟨front, hfront⟩ := List.getLast?_eq_some_iff.mp hlast
  have hkept := hfront
  rw [left, if_pos hcut] at hkept
  refine ⟨hcut, front, hfront, hkept, fun start => ?_⟩
  rw [hfront, hlf, List.append_assoc]
  exact Line.ofPiece_crlf start front

theorem ofPiece_left (hends : line.Ends) (start : Nat)
    (hopen : line.terminator = ['\n'] → (left width line next).getLast? ≠ some '\r') :
    Line.ofPiece start (left width line next ++ line.terminator) =
      ⟨start, left width line next, line.terminator, false⟩ :=
  hends.ofPiece_eq start (not_mem_left hends.not_mem_text) hopen

/-- A line that is read again goes on if it did. -/
theorem goesOn_ofPiece_left (hends : line.Ends) (start : Nat) :
    goesOn (some (Line.ofPiece start (left width line next ++ line.terminator))) =
      goesOn (some line) := by
  have hplain : line.verbatim = false := by cases hends <;> rfl
  have hblank := all_left width line next
  by_cases hjoin : line.terminator = ['\n'] ∧ (left width line next).getLast? = some '\r'
  · obtain ⟨-, front, hfront, -, hagain⟩ := exists_front_of_join hends hjoin.1 hjoin.2
    have hreturn : Text.isWhitespace '\r' = true := rfl
    rw [hfront, List.all_append, List.all_cons, hreturn, List.all_nil, Bool.and_self,
      Bool.and_true] at hblank
    simp only [hagain, goesOn, Option.any_some, Line.isBlank, hplain] at hblank ⊢
    rw [hblank]
  · rw [ofPiece_left hends start fun hlf hlast => hjoin ⟨hlf, hlast⟩]
    simp only [goesOn, Option.any_some, Line.isBlank, hplain] at hblank ⊢
    rw [hblank]

/-- There is something to take out of a line that is read again only if the line exposes it. -/
theorem isCut_ofPiece_left_iff (hends : line.Ends) (start : Nat)
    (hnext : goesOn next' = goesOn next) :
    isCut width (Line.ofPiece start (left width line next ++ line.terminator)) next' = true ↔
      Exposes width line next := by
  have hplain : line.verbatim = false := by cases hends <;> rfl
  by_cases hjoin : line.terminator = ['\n'] ∧ (left width line next).getLast? = some '\r'
  · obtain ⟨hcut, front, -, hkept, hagain⟩ := exists_front_of_join hends hjoin.1 hjoin.2
    have hsame : isCut width ⟨start, front, ['\r', '\n'], false⟩ next' =
        isCut width { line with text := front } next := isCut_congr rfl hplain.symm hnext
    rw [hagain, hsame]
    constructor
    · exact fun h => ⟨hcut, hjoin.1, front, hkept, h⟩
    · rintro ⟨-, -, front', hkept', h⟩
      obtain rfl := List.append_cancel_right (hkept.symm.trans hkept')
      exact h
  · rw [ofPiece_left hends start fun hlf hlast => hjoin ⟨hlf, hlast⟩,
      isCut_left rfl hplain.symm hnext]
    constructor
    · exact fun h => absurd h Bool.false_ne_true
    · rintro ⟨hcut, hlf, front, hkept, -⟩
      refine absurd ⟨hlf, ?_⟩ hjoin
      rw [left, if_pos hcut, hkept, List.getLast?_concat]

/-- Over all lines of a text: the lines that are read again go on where they did, and have something to
take out only where something is exposed. -/
theorem isCut_layOut_strippedPieces (h : Line.Closed ps) (start start' : Nat) :
    let lines := Line.layOut start ps
    let again := Line.layOut start' ((strippedPieces width lines).filter (· ≠ []))
    goesOn again.head? = goesOn lines.head? ∧
      ((∀ p ∈ withNext again, isCut width p.1 p.2 = false) ↔
        ∀ p ∈ withNext lines, ¬ Exposes width p.1 p.2) := by
  induction h generalizing start start' with
  | nil => exact ⟨rfl, by simp [strippedPieces, Line.layOut, withNext]⟩
  | @last t h =>
    rw [Line.layOut, Line.ofPiece_of_not_mem h, Line.layOut]
    have hends := Line.Ends.last start h
    generalize (⟨start, t, [], false⟩ : Line) = line at hends
    let piece := left width line none ++ line.terminator
    have hgoes : goesOn (some (Line.ofPiece start' piece)) = goesOn (some line) :=
      goesOn_ofPiece_left hends start'
    have hcut : isCut width (Line.ofPiece start' piece) none = true ↔ Exposes width line none :=
      isCut_ofPiece_left_iff hends start' rfl
    by_cases hne : piece = []
    · obtain ⟨hleft, hterminator⟩ := List.append_eq_nil_iff.mp hne
      have hempty : line.isBlank = true := by rw [← all_left width line none, hleft, List.all_nil]
      have hagain : (strippedPieces width [line]).filter (· ≠ []) = [] :=
        List.filter_cons_of_neg (by simp [hleft, hterminator])
      dsimp only
      rw [hagain, Line.layOut]
      refine ⟨by simp [goesOn, hempty], ?_⟩
      simp [withNext, Exposes, hterminator]
    · have hagain : (strippedPieces width [line]).filter (· ≠ []) = [piece] :=
        List.filter_cons_of_pos (decide_eq_true hne)
      dsimp only
      rw [hagain, Line.layOut, Line.layOut]
      refine ⟨hgoes, ?_⟩
      simp only [withNext, List.head?_nil, List.forall_mem_singleton, ← hcut, Bool.not_eq_true,
        piece]
  | @cons t rest h tail ih =>
    have hends := Line.ends_ofPiece start h
    obtain ⟨x, hx, -⟩ := Line.exists_terminator_ofPiece start t
    rw [Line.layOut]
    generalize Line.ofPiece start (t ++ ['\n']) = line at hends hx
    have ih := ih (start + Text.size (t ++ ['\n']))
    generalize Line.layOut (start + Text.size (t ++ ['\n'])) rest = lines at ih
    let piece := left width line lines.head? ++ line.terminator
    have hne : piece ≠ [] := by simp [piece, hx]
    have hagain : (strippedPieces width (line :: lines)).filter (· ≠ []) =
        piece :: (strippedPieces width lines).filter (· ≠ []) :=
      List.filter_cons_of_pos (decide_eq_true hne)
    obtain ⟨hnext, hcuts⟩ := ih (start' + piece.size)
    have hcut : isCut width (Line.ofPiece start' piece) _ = true ↔
        Exposes width line lines.head? := isCut_ofPiece_left_iff hends start' hnext
    dsimp only
    rw [hagain, Line.layOut]
    refine ⟨goesOn_ofPiece_left hends start', ?_⟩
    rw [withNext, withNext, List.forall_mem_cons, List.forall_mem_cons, hcuts, ← hcut,
      Bool.not_eq_true]

def cuts (width : Nat) (line : Line) (next : Option Line) : List Edit :=
  if isCut width line next then
    [.deleteSpan ⟨line.start + Text.size (trimEndBy isSpaceOrTab line.text), line.newlineStart⟩]
  else []

theorem edits_reports (ctx : RuleContext) (width : Nat) (line : Line) (next : Option Line) :
    (reports ctx width line next).flatMap (·.edits) = cuts width line next := by
  by_cases hcut : isCut width line next = true
  · rw [cuts, if_pos hcut]
    rw [isCut, Bool.not_eq_true'] at hcut
    rw [reports, hcut, if_neg Bool.false_ne_true]
    rfl
  · rw [cuts, if_neg hcut]
    rw [isCut, Bool.not_eq_true', Bool.not_eq_false] at hcut
    rw [reports, hcut, if_pos rfl]
    rfl

theorem reports_eq_nil_iff :
    reports ctx width line next = [] ↔ isCut width line next = false := by
  rw [isCut, Bool.not_eq_false', reports]
  split
  · rename_i h
    exact ⟨fun _ => h, fun _ => rfl⟩
  · rename_i h
    exact ⟨fun hnil => absurd hnil (List.cons_ne_nil _ _), fun hcut => absurd hcut h⟩

theorem map_fst_withNext (lines : List Line) : (withNext lines).map Prod.fst = lines := by
  induction lines with
  | nil => rfl
  | cons line lines ih => rw [withNext, List.map_cons, ih]

theorem turns_cuts (width : Nat) (line : Line) (next : Option Line) :
    Turns line.start line.whole (cuts width line next)
      (left width line next ++ line.terminator) := by
  unfold cuts left
  split
  · exact EditPlan.turns_trimEndBy isSpaceOrTab line.start line.text line.terminator
  · exact .done _ _

/-- What the rule reports of the lines of a text. -/
def findingsOf (ctx : RuleContext) (width : Nat) (lines : List Line) : List Diagnostic :=
  (withNext lines).flatMap fun p => reports ctx width p.1 p.2

theorem run_rule (hctx : ctx.Views source)
    (hwidth : ctx.countOption "br_spaces" 2 = .ok width) :
    Id.run ((rule : Rule Id).check ctx).run = .ok (findingsOf ctx width ctx.snapshot.lines) := by
  rw [findingsOf, List.flatMap_def]
  refine Rule.run_ofSteps ?_
  rw [steps, hwidth, List.map_map]
  exact congrArg Except.ok (List.map_congr_left fun p hp =>
    findings_eq hctx (mem_of_mem_withNext hp) width p.2)

theorem findingsOf_eq_nil_iff :
    findingsOf ctx width lines = [] ↔ ∀ p ∈ withNext lines, isCut width p.1 p.2 = false := by
  simp only [findingsOf, List.flatMap_eq_nil_iff, reports_eq_nil_iff]

/-- The edits for the lines of a text, some of which may be verbatim, make up a plan, which strips
them. -/
theorem prepareStrictly_of_tiles (ctx : RuleContext) (width : Nat)
    (htiles : Line.Tiles 0 source lines) :
    ∃ plan, EditPlan.prepareStrictly source
        ((findingsOf ctx width lines).flatMap (·.edits)) = .ok plan ∧
      plan.applyTo? source = some (strippedPieces width lines).flatten := by
  have hedits : (findingsOf ctx width lines).flatMap (·.edits) =
      (withNext lines).flatMap fun p => cuts width p.1 p.2 := by
    simp only [findingsOf, List.flatMap_assoc, edits_reports]
  have htakes : ∀ p ∈ withNext lines, ∀ e ∈ cuts width p.1 p.2, e.start ≠ e.stop := by
    intro p _ e he
    rw [← edits_reports ctx] at he
    obtain ⟨d, hd, he⟩ := List.mem_flatMap.mp he
    exact (Edit.isDeletion_iff.mp (edit_of_mem_reports hd he).2.2).1
  obtain ⟨plan, hplan, happly⟩ := EditPlan.exists_plan_of_tiles
    ((map_fst_withNext lines).symm ▸ htiles) (fun p _ => turns_cuts width p.1 p.2) htakes
  rw [List.flatMap_def] at happly
  exact ⟨plan, hedits ▸ hplan, happly⟩

theorem prepareStrictly_findingsOf (ctx : RuleContext) (width : Nat) (source : Text) :
    ∃ plan, EditPlan.prepareStrictly source
        ((findingsOf ctx width (Line.ofText source)).flatMap (·.edits)) = .ok plan ∧
      plan.applyTo? source = some (stripped width source) :=
  prepareStrictly_of_tiles ctx width (Line.tiles_ofText source)

theorem run_lint_of_prose {rule : ActiveRule Id} {parser : Parser Id} {root : Node}
    (hrule : rule.rule = TrailingSpaces.rule)
    (hwidth : ∀ s, (rule.context s).countOption "br_spaces" 2 = .ok width)
    (hroot : parser source = .ok root) (hprose : root.IsProse) :
    Id.run (rule.lint parser source).run = .ok
      (findingsOf (rule.context (.ofTree "<idempotency>" source root)) width
        (Line.ofText source)) := by
  refine ActiveRule.run_lint hroot ?_
  rw [ActiveRule.check, hrule, ← Snapshot.lines_ofTree hprose "<idempotency>" source]
  exact run_rule ⟨"<idempotency>", root, rfl⟩ (hwidth _)

/-- In a text without code and front matter, the fix strips all lines, and a second look has something
to report if and only if one of them exposes blanks in front of a carriage return. -/
theorem lint_stripped_eq_nil_iff {rule : ActiveRule Id} {parser : Parser Id} {root root' : Node}
    (hrule : rule.rule = TrailingSpaces.rule)
    (hwidth : ∀ s, (rule.context s).countOption "br_spaces" 2 = .ok width)
    (hroot : parser source = .ok root) (hprose : root.IsProse)
    (hroot' : parser (stripped width source) = .ok root') (hprose' : root'.IsProse) :
    ∃ found plan rest, Id.run (rule.lint parser source).run = .ok found ∧
      EditPlan.prepareStrictly source (found.flatMap (·.edits)) = .ok plan ∧
      plan.applyTo? source = some (stripped width source) ∧
      Id.run (rule.lint parser (stripped width source)).run = .ok rest ∧
      (rest = [] ↔ ∀ p ∈ withNext (Line.ofText source), ¬ Exposes width p.1 p.2) := by
  obtain ⟨plan, hplan, happly⟩ := prepareStrictly_findingsOf
    (rule.context (.ofTree "<idempotency>" source root)) width source
  refine ⟨_, plan, _, run_lint_of_prose hrule hwidth hroot hprose, hplan, happly,
    run_lint_of_prose hrule hwidth hroot' hprose', ?_⟩
  have hclosed : Line.Closed (strippedPieces width (Line.ofText source)) := by
    refine (Line.closed_pieces source).map_layOut (map_fst_withNext _) fun p hp => ?_
    have hends := Line.ends_of_mem_ofText (mem_of_mem_withNext hp)
    exact not_mem_left hends.not_mem_text
  rw [findingsOf_eq_nil_iff, Line.ofText, stripped, hclosed.pieces_flatten]
  exact (isCut_layOut_strippedPieces (Line.closed_pieces source) 0 0).2

/-- A hard break, a line that ends in a carriage return and a line feed, and one without an end. -/
theorem lint_stripped_eq_nil_iff_three :
    let rule : ActiveRule Id := .ofRule TrailingSpaces.rule
    let parser : Parser Id := fun _ => .ok (.branch .root ⟨0, 0⟩ [])
    let source : Text := ['a', ' ', ' ', '\n', 'b', ' ', '\t', '\r', '\n', 'c', ' ']
    let fixed : Text := ['a', ' ', ' ', '\n', 'b', '\r', '\n', 'c']
    ∃ found plan, Id.run (rule.lint parser source).run = .ok found ∧
      EditPlan.prepareStrictly source (found.flatMap (·.edits)) = .ok plan ∧
      plan.applyTo? source = some fixed ∧ Id.run (rule.lint parser fixed).run = .ok [] := by
  intro rule parser source fixed
  have hwidth : ∀ s, (rule.context s).countOption "br_spaces" 2 = .ok 2 := fun _ => rfl
  have hroot (t : Text) : parser t = .ok (.branch .root ⟨0, 0⟩ []) := rfl
  have hprose : (Node.branch .root ⟨0, 0⟩ []).IsProse := by decide
  have hfixed : stripped 2 source = fixed := by decide
  obtain ⟨found, plan, rest, hfound, hplan, happly, hrest, hiff⟩ :=
    lint_stripped_eq_nil_iff rfl hwidth (hroot source) hprose (hroot (stripped 2 source)) hprose
  rw [hfixed] at happly hrest
  have hnil : rest = [] := by
    refine hiff.mpr ?_
    have hcut : isCut 2 ⟨0, ['a', ' ', ' '], ['\n'], false⟩
        (some ⟨4, ['b', ' ', '\t'], ['\r', '\n'], false⟩) = false := by decide
    have hlines : Line.ofText source = [⟨0, ['a', ' ', ' '], ['\n'], false⟩,
        ⟨4, ['b', ' ', '\t'], ['\r', '\n'], false⟩, ⟨9, ['c', ' '], [], false⟩] := by decide
    simp [hlines, withNext, Exposes, hcut]
  exact ⟨found, plan, hfound, hplan, happly, hnil ▸ hrest⟩

/-- Only the carriage return keeps the first blank from being found together with the second. -/
theorem lint_stripped_carriage_return :
    let rule : ActiveRule Id := .ofRule TrailingSpaces.rule
    let source : Text := ['a', ' ', '\r', ' ', '\n']
    let fixed : Text := ['a', ' ', '\r', '\n']
    (Markdown.parse source).IsProse ∧ (Markdown.parse fixed).IsProse ∧
    ∃ found plan rest, Id.run (rule.lint Parser.markdown source).run = .ok found ∧
      EditPlan.prepareStrictly source (found.flatMap (·.edits)) = .ok plan ∧
      plan.applyTo? source = some fixed ∧
      Id.run (rule.lint Parser.markdown fixed).run = .ok rest ∧ rest ≠ [] := by
  intro rule source fixed
  let root (stop : Nat) : Node := .branch .root ⟨0, stop⟩
    [.branch .paragraph ⟨0, 2⟩ [.literal .text ⟨0, 1⟩ ['a']]]
  have hroot : Markdown.parse source = root 5 := by cbv
  have hroot' : Markdown.parse fixed = root 4 := by cbv
  have hprose : (root 5).IsProse := by decide
  have hprose' : (root 4).IsProse := by decide
  have hwidth : ∀ s, (rule.context s).countOption "br_spaces" 2 = .ok 2 := fun _ => rfl
  have hfound :=
    run_lint_of_prose rfl hwidth (Parser.markdown_eq_ok hroot (by decide)) hprose
  have hrest :=
    run_lint_of_prose rfl hwidth (Parser.markdown_eq_ok hroot' (by decide)) hprose'
  obtain ⟨plan, hplan, happly⟩ := prepareStrictly_findingsOf
    (rule.context (.ofTree "<idempotency>" source (root 5))) 2 source
  have hfixed : stripped 2 source = fixed := by decide
  refine ⟨hroot ▸ hprose, hroot' ▸ hprose', _, plan, _, hfound, hplan, hfixed ▸ happly, hrest, ?_⟩
  rw [Ne, findingsOf_eq_nil_iff]
  decide

end Tidymark.Rules.TrailingSpaces
