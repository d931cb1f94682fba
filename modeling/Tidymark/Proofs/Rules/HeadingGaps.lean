import Mathlib.Tactic.Choose
import Tidymark.Proofs.Edit.Linewise
import Tidymark.Proofs.Line.Neighbours
import Tidymark.Proofs.Rule.Fixing
import Tidymark.Proofs.Rule.Proposals
import Tidymark.Proofs.Rules.Headings

/-! # Gaps at headings are filled

What the fix of the rule for blank lines around headings makes of a text as a whole. Each heading
asks for a blank line below its last line and above its first one. Of two headings next to each other
both ask at the same border of lines, and the plan has one line feed there. So what is put in hangs
on the borders, and not on how many headings ask at one. -/
namespace Tidymark.Rules.HeadingBlanks

open EditPlan (Turns)

/-- The heading asks for a blank line between two lines: it ends on the one above, or it starts on
the one below and the one above does not start in front matter. -/
def Asks (s : Snapshot) (heading : Heading) (above below : Line) : Prop :=
  (above.span.contains (heading.span.stop - 1) = true ∧ below.isBlank = false) ∨
    (below.span.contains heading.span.start = true ∧ above.isBlank = false ∧
      s.frontMatter.any (·.contains above.start) = false)

/-- A heading at the top level asks for a blank line between a line and the one below it. -/
def Lacks (s : Snapshot) (line : Line) (next : Option Line) : Prop :=
  ∃ below ∈ next, ∃ heading ∈ s.headings, heading.topLevel = true ∧ Asks s heading line below

instance (s : Snapshot) (heading : Heading) (above below : Line) :
    Decidable (Asks s heading above below) :=
  inferInstanceAs (Decidable (_ ∨ _))

instance (s : Snapshot) (line : Line) (next : Option Line) : Decidable (Lacks s line next) :=
  inferInstanceAs (Decidable (∃ _ ∈ _, _))

/-- The `i`th line, and a line feed behind it where a blank line is missing. -/
def separated (s : Snapshot) (i : Nat) (line : Line) : Text :=
  line.whole ++ if Lacks s line s.lines[i + 1]? then ['\n'] else []

/-- The edit puts a line feed between two lines where the heading asks for a blank line. -/
def Fills (s : Snapshot) (heading : Heading) (e : Edit) : Prop :=
  ∃ i above below, s.lines[i]? = some above ∧ s.lines[i + 1]? = some below ∧
    Asks s heading above below ∧ e = .insert above.stop ['\n']

def insertions (s : Snapshot) (p : Line × Nat) : List Edit :=
  if Lacks s p.1 s.lines[p.2 + 1]? then [.insert p.1.stop ['\n']] else []

variable {ctx : RuleContext} {source : Text} {heading : Heading} {first last : Line} {i : Nat}
variable {e : Edit} {other : Option Line}

theorem turns_insertions (s : Snapshot) (p : Line × Nat) :
    Turns p.1.start p.1.whole (insertions s p) (separated s p.2 p.1) := by
  unfold insertions separated
  split
  · have hsame : (Edit.insert p.1.stop ['\n']).start = p.1.start + p.1.whole.size := p.1.stop_eq
    have h : Turns p.1.start (p.1.whole ++ [] ++ []) [.insert p.1.stop ['\n']]
        (p.1.whole ++ ['\n'] ++ []) := .edit hsame rfl (.done _ _)
    simpa using h
  · simpa using Turns.done p.1.start p.1.whole

theorem mem_insertions_iff (s : Snapshot) : e ∈ s.lines.zipIdx.flatMap (insertions s) ↔
    ∃ heading ∈ s.headings, heading.topLevel = true ∧ Fills s heading e := by
  simp only [List.mem_flatMap, insertions, Prod.exists, List.mk_mem_zipIdx_iff_getElem?]
  constructor
  · rintro ⟨above, i, habove, he⟩
    split at he
    · rename_i hlacks
      obtain ⟨below, hbelow, heading, hmem, htop, hasks⟩ := hlacks
      exact ⟨heading, hmem, htop, i, above, below, habove, hbelow, hasks, List.mem_singleton.mp he⟩
    · cases he
  · rintro ⟨heading, hmem, htop, i, above, below, habove, hbelow, hasks, rfl⟩
    refine ⟨above, i, habove, ?_⟩
    rw [if_pos ⟨below, hbelow, heading, hmem, htop, hasks⟩]
    exact List.mem_singleton_self _

theorem pairwise_insertions (hctx : ctx.Views source) :
    (ctx.snapshot.lines.zipIdx.flatMap (insertions ctx.snapshot)).Pairwise
      fun e f => e.start < f.start := by
  have htiles : Line.Tiles 0 source (ctx.snapshot.lines.zipIdx.map Prod.fst) := by
    rw [List.zipIdx_map_fst]
    exact hctx.tiles
  refine EditPlan.strict_of_tiles htiles (fun p _ => ?_) fun p hp e he => ?_
  · unfold insertions
    split
    · exact List.pairwise_singleton _ _
    · exact .nil
  · have hproper := hctx.start_lt_stop (List.fst_mem_of_mem_zipIdx hp)
    unfold insertions at he
    split at he
    · obtain rfl := List.mem_singleton.mp he
      exact ⟨hproper, Nat.le_refl _⟩
    · cases he

theorem mem_edits_findingsAbove : e ∈ (findingsAbove ctx first other).flatMap (·.edits) ↔
    ∃ above ∈ other, above.isBlank = false ∧
      ctx.snapshot.frontMatter.any (·.contains above.start) = false ∧
        e = .insert first.start ['\n'] := by
  cases other with
  | none => simp [findingsAbove]
  | some above =>
    simp only [findingsAbove, Option.mem_some_iff, exists_eq_left']
    split
    · rename_i hnone
      simp only [Bool.or_eq_true] at hnone
      refine iff_of_false List.not_mem_nil ?_
      rintro ⟨hvisible, hfree, -⟩
      rw [hvisible, hfree] at hnone
      simp at hnone
    · rename_i hnone
      rw [Bool.not_eq_true, Bool.or_eq_false_iff] at hnone
      simp [hnone, RuleContext.report]

theorem mem_edits_findingsBelow : e ∈ (findingsBelow ctx last other).flatMap (·.edits) ↔
    ∃ below ∈ other, below.isBlank = false ∧ e = .insert last.stop ['\n'] := by
  cases other with
  | none => simp [findingsBelow]
  | some below =>
    simp only [findingsBelow, Option.mem_some_iff, exists_eq_left', Option.any_some]
    by_cases hblank : below.isBlank = true
    · simp [hblank]
    · simp [hblank, RuleContext.report]

theorem findings_eq_ok (hctx : ctx.Views source) (hmem : heading ∈ ctx.snapshot.headings)
    (hspan : heading.span.start < heading.span.stop) {i j : Nat}
    (hi : ctx.snapshot.lineIndex heading.span.start = i)
    (hj : ctx.snapshot.lineIndex (heading.span.stop - 1) = j)
    (hfirst : ctx.snapshot.lines[i]? = some first) (hlast : ctx.snapshot.lines[j]? = some last) :
    findings ctx heading = .ok
      (findingsAbove ctx first (if i = 0 then none else ctx.snapshot.lines[i - 1]?) ++
        findingsBelow ctx last ctx.snapshot.lines[j + 1]?) := by
  have hmax : max (heading.span.stop - 1) heading.span.start = heading.span.stop - 1 := by omega
  have hline : ctx.line i = .ok first := by rw [RuleContext.line, hfirst]
  have hline' : ctx.line j = .ok last := by rw [RuleContext.line, hlast]
  simp only [findings, hctx.line_eq hmem, hmax, hi, hj, hline, hline', lineAbove_eq hfirst]
  rfl

/-- A heading with a span in the source starts on one line and ends on one, and is reported for what
is next to these. -/
theorem exists_findings (hctx : ctx.Views source) (hmem : heading ∈ ctx.snapshot.headings)
    (hspan : heading.span.start < heading.span.stop) (hstop : heading.span.stop ≤ source.size) :
    ∃ found, findings ctx heading = .ok found ∧
      ∀ e, e ∈ found.flatMap (·.edits) ↔ Fills ctx.snapshot heading e := by
  have htiles := hctx.tiles
  obtain ⟨first, hfirst, hfirst'⟩ := htiles.exists_indexAt (Nat.zero_le heading.span.start)
    (by omega)
  obtain ⟨last, hlast, hlast'⟩ := htiles.exists_indexAt (Nat.zero_le (heading.span.stop - 1))
    (by omega)
  refine ⟨_, findings_eq_ok hctx hmem hspan rfl rfl hfirst hlast, fun e => ?_⟩
  rw [List.flatMap_append, List.mem_append, mem_edits_findingsAbove, mem_edits_findingsBelow]
  constructor
  · rintro (⟨above, habove, hvisible, hfree, rfl⟩ | ⟨below, hbelow, hvisible, rfl⟩)
    · split at habove
      · cases habove
      · rename_i hpos
        have hnext : ctx.snapshot.lineIndex heading.span.start - 1 + 1 =
            ctx.snapshot.lineIndex heading.span.start := by omega
        rw [← Snapshot.lineIndex, ← hnext] at hfirst
        refine ⟨_, above, first, habove, hfirst, .inr ⟨?_, hvisible, hfree⟩, ?_⟩
        · exact Span.contains_eq_true.mpr hfirst'
        · rw [htiles.start_eq_stop habove hfirst]
    · exact ⟨_, last, below, hlast, hbelow, .inl ⟨Span.contains_eq_true.mpr hlast', hvisible⟩, rfl⟩
  · rintro ⟨i, above, below, habove, hbelow, ⟨hends, hvisible⟩ | ⟨hstarts, hvisible, hfree⟩, rfl⟩
    · obtain ⟨hstart, hstop⟩ := Span.contains_eq_true.mp hends
      obtain rfl : ctx.snapshot.lineIndex (heading.span.stop - 1) = i :=
        htiles.indexAt_eq habove hstart hstop
      obtain rfl := Option.some.inj (hlast.symm.trans habove)
      exact .inr ⟨below, hbelow, hvisible, rfl⟩
    · obtain ⟨hstart, hstop⟩ := Span.contains_eq_true.mp hstarts
      have hindex : ctx.snapshot.lineIndex heading.span.start = i + 1 :=
        htiles.indexAt_eq hbelow hstart hstop
      rw [← Snapshot.lineIndex, hindex] at hfirst
      obtain rfl := Option.some.inj (hfirst.symm.trans hbelow)
      rw [htiles.start_eq_stop habove hbelow, hindex]
      exact .inl ⟨above, habove, hvisible, hfree, rfl⟩

theorem exists_run (hctx : ctx.Views source)
    (hspans : ∀ heading ∈ ctx.snapshot.headings, heading.topLevel = true →
      heading.span.start < heading.span.stop ∧ heading.span.stop ≤ source.size) :
    ∃ found, Id.run ((rule : Rule Id).check ctx).run = .ok found ∧
      ∀ e, e ∈ found.flatMap (·.edits) ↔
        ∃ heading ∈ ctx.snapshot.headings, heading.topLevel = true ∧
          Fills ctx.snapshot heading e := by
  have hall : ∀ heading ∈ ctx.snapshot.headings.filter (·.topLevel), ∃ found,
      findings ctx heading = .ok found ∧
        ∀ e, e ∈ found.flatMap (·.edits) ↔ Fills ctx.snapshot heading e := fun heading hmem => by
    obtain ⟨hmem, htop⟩ := List.mem_filter.mp hmem
    obtain ⟨hspan, hstop⟩ := hspans heading hmem htop
    exact exists_findings hctx hmem hspan hstop
  choose! found hfound hedits using hall
  have hsteps : steps ctx =
      .ok (((ctx.snapshot.headings.filter (·.topLevel)).map found).map .ok) := by
    rw [steps, List.map_map]
    exact congrArg _ (List.map_congr_left hfound)
  refine ⟨_, Rule.run_ofSteps hsteps, fun e => ?_⟩
  rw [← List.flatMap_def, List.flatMap_assoc, List.mem_flatMap]
  constructor
  · rintro ⟨heading, hheading, he⟩
    obtain ⟨hmem, htop⟩ := List.mem_filter.mp hheading
    exact ⟨heading, hmem, htop, (hedits heading hheading e).mp he⟩
  · rintro ⟨heading, hmem, htop, he⟩
    have hheading := List.mem_filter.mpr ⟨hmem, htop⟩
    exact ⟨heading, hheading, (hedits heading hheading e).mpr he⟩

/-- The fix of the rule puts one line feed between two lines where the one above is the last of a
heading at the top level and the one below is not blank, or where the one below is the first of such a
heading and the one above is neither blank nor starts in front matter. It never puts in two, and
changes nothing else. -/
theorem separates_rule (hctx : ctx.Views source)
    (hspans : ∀ heading ∈ ctx.snapshot.headings, heading.topLevel = true →
      heading.span.start < heading.span.stop ∧ heading.span.stop ≤ source.size) :
    ∃ found plan, Id.run ((rule : Rule Id).check ctx).run = .ok found ∧
      EditPlan.prepareStrictly source (found.flatMap (·.edits)) = .ok plan ∧
      plan.applyTo? source =
        some (ctx.snapshot.lines.mapIdx (separated ctx.snapshot)).flatten := by
  obtain ⟨found, hrun, hfound⟩ := exists_run hctx hspans
  have hsame : ∀ e, e ∈ found.flatMap (·.edits) ↔
      e ∈ ctx.snapshot.lines.zipIdx.flatMap (insertions ctx.snapshot) := fun e =>
    (hfound e).trans (mem_insertions_iff ctx.snapshot).symm
  have hfree : Edit.Free (found.flatMap (·.edits)) := Edit.free_of_insertions fun e he => by
    obtain ⟨-, -, -, -, above, -, -, -, -, rfl⟩ := (hfound e).mp he
    rfl
  have hturns : Turns 0 source (ctx.snapshot.lines.zipIdx.flatMap (insertions ctx.snapshot))
      (ctx.snapshot.lines.mapIdx (separated ctx.snapshot)).flatten := by
    rw [List.mapIdx_eq_zipIdx_map, ← List.flatMap_def]
    exact EditPlan.turns_of_tiles (by rw [List.zipIdx_map_fst]; exact hctx.tiles)
      fun p _ => turns_insertions ctx.snapshot p
  obtain ⟨hplan, -, happly⟩ :=
    EditPlan.prepareStrictly_of_mem_iff hturns (pairwise_insertions hctx) hfree hsame
  exact ⟨found, _, hrun, hplan, happly⟩

/-- A heading of two lines behind front matter, and a heading below it: between the two, where both
ask, there is one line feed. -/
theorem separates_rule_adjacent :
    let source : Text := ['-', '\n', 'a', '\n', '=', '\n', '#', ' ', 'b', '\r', '\n', 'c']
    let root : Node := .branch .root ⟨0, 12⟩
      [.literal .frontMatter ⟨0, 1⟩ [] .none, .branch .heading ⟨2, 5⟩ [] (.heading 1 true),
        .branch .heading ⟨6, 9⟩ [] (.heading 1 false)]
    let ctx : RuleContext :=
      ⟨.ofTree "a.md" source root, "MD022", "blanks-around-headings", .error, .empty⟩
    (∀ heading ∈ ctx.snapshot.headings, heading.topLevel = true →
      heading.span.start < heading.span.stop ∧ heading.span.stop ≤ source.size) ∧
    ∃ found plan, Id.run ((rule : Rule Id).check ctx).run = .ok found ∧
      EditPlan.prepareStrictly source (found.flatMap (·.edits)) = .ok plan ∧
      plan.applyTo? source = some
        ['-', '\n', 'a', '\n', '=', '\n', '\n', '#', ' ', 'b', '\r', '\n', '\n', 'c'] := by
  intro source root ctx
  have hspans : ∀ heading ∈ ctx.snapshot.headings, heading.topLevel = true →
      heading.span.start < heading.span.stop ∧ heading.span.stop ≤ source.size := by decide
  have hfixed : (ctx.snapshot.lines.mapIdx (separated ctx.snapshot)).flatten =
      ['-', '\n', 'a', '\n', '=', '\n', '\n', '#', ' ', 'b', '\r', '\n', '\n', 'c'] := by decide
  rw [← hfixed]
  exact ⟨hspans, separates_rule ⟨"a.md", root, rfl⟩ hspans⟩

end Tidymark.Rules.HeadingBlanks
