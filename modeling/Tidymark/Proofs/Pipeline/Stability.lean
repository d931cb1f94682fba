import Mathlib
import Tidymark.Proofs.Pipeline.Report

/-! # Converged runs are stable

A run converged if it warns neither of a text that came back nor of fixes that are left. Then the
fixes found on its final content leave it alone, whichever pass or lint looked at it last, and a run
on that content ends with its first pass. The other way round, a run whose texts settle within its
passes ends well with the text that they settle on. -/
namespace Tidymark

open MonadAttach (CanReturn)

theorem decodeSource_encode (source : Text) : decodeSource (Text.encode source) = .ok source := by
  rw [decodeSource, Text.decode_encode]
  rfl

namespace Pipeline

theorem applyFixes_of_prepare {m : Type → Type} {p : Pipeline m} {s : Progress}
    {diagnostics : List Diagnostic} {plan : EditPlan} (hfix : p.options.fix = true)
    (hplan : EditPlan.prepare s.content (p.applicableEdits diagnostics) = .ok plan)
    (hsame : plan.applyTo s.content = s.content) :
    p.applyFixes s diagnostics = .ok (.settled (s.noted plan)) := by
  unfold applyFixes
  simp only [hfix, Bool.not_true, Bool.false_or]
  split
  · rename_i hempty
    obtain ⟨hnil, -⟩ := EditPlan.applyTo_nil s.content
    rw [List.isEmpty_iff.mp hempty] at hplan
    obtain rfl := Except.ok.inj (hnil.symm.trans hplan)
    rfl
  · simp only [hplan, ← Progress.noted.eq_1, Progress.noted_content]
    simp only [Except.mapError, bind, Except.bind, hsame, if_true]
    rfl

theorem applyFixes_of_new {m : Type → Type} {p : Pipeline m} {s : Progress}
    {diagnostics : List Diagnostic} {plan : EditPlan} (hfix : p.options.fix = true)
    (hplan : EditPlan.prepare s.content (p.applicableEdits diagnostics) = .ok plan)
    (hchanged : plan.applyTo s.content ≠ s.content) (hnew : plan.applyTo s.content ∉ s.history) :
    p.applyFixes s diagnostics = .ok (.changed (s.moved plan)) := by
  have hsome : (p.applicableEdits diagnostics).isEmpty = false := by
    by_contra hempty
    rw [Bool.not_eq_false, List.isEmpty_iff] at hempty
    obtain ⟨hnil, hsame⟩ := EditPlan.applyTo_nil s.content
    rw [hempty] at hplan
    obtain rfl := Except.ok.inj (hnil.symm.trans hplan)
    exact hchanged hsame
  have hnone : s.history.findIdx? (· == plan.applyTo s.content) = none := by
    rw [List.findIdx?_eq_none_iff]
    intro text htext
    rw [beq_eq_false_iff_ne]
    rintro rfl
    exact hnew htext
  unfold applyFixes
  simp only [hfix, hsome, hplan, ← Progress.noted.eq_1, Progress.noted_content,
    Progress.noted_history, Progress.noted_passes, Progress.noted_fixesApplied,
    Progress.noted_failures]
  simp only [Except.mapError, bind, Except.bind, Bool.not_true, Bool.or_self, Bool.false_eq_true,
    if_false, if_neg hchanged, hnone]
  rfl

variable {p : Pipeline Id} {path : String} {content : Text} {found : Findings} {r : PipelineResult}

theorem run_lint_of_root {root : Node} (pass : Nat)
    (hroot : CanReturn (p.parser content) (.ok root)) :
    Id.run (p.lint path pass content).run =
      Id.run (runRules pass (.ofTree path content root) p.rules).run := by
  have hparser : p.parser content = pure (.ok root) := hroot
  simp only [lint, Snapshot.ofSource]
  rw [hparser]
  rfl

/-- A run lints its text, and the outcome of the fixes decides how it goes on. -/
theorem run_converge_succ {initial : Text} {remaining : Nat} {s : Progress} {outcome : Outcome}
    (hlint : Id.run (p.lint path (s.passes + 1) s.content).run = .ok found) :
    p.applyFixes (s.passed found) found.diagnostics = .ok outcome →
    Id.run (p.converge path initial (remaining + 1) s).run =
      Id.run (match outcome with
        | .settled same => pure (finish path initial same found.diagnostics)
        | .repeated next => p.finishChanged path initial false next
        | .changed next => p.converge path initial remaining next :
          ExceptT LintError Id PipelineResult).run := by
  intro houtcome
  rw [converge, ExceptT.run_bind, Id.run_bind, hlint]
  change Id.run (ExceptT.run ((liftM (p.applyFixes (s.passed found) found.diagnostics) :
    ExceptT LintError Id Outcome) >>= _)) = _
  rw [houtcome]
  rfl

/-- A text that its own fixes leave alone is done with in one pass. -/
theorem runText_of_leavesAlone (hfix : p.options.fix = true)
    (hlint : Id.run (p.lint path 1 content).run = .ok found)
    (halone : p.LeavesAlone content found.diagnostics) :
    ∃ again, Id.run (p.runText path content).run = .ok again ∧ again.changed = false ∧
      again.fixesApplied = 0 ∧ again.passesRun = 1 ∧ again.finalContent = content ∧
      again.diagnostics = Diagnostic.arrange found.diagnostics ∧
      ∀ w ∈ again.warnings, w.isSkip = true := by
  obtain ⟨plan, hplan, hsame⟩ := halone
  let s : Progress := Progress.passed ⟨content, [content], 0, 0, [], []⟩ found
  have happly : p.applyFixes s found.diagnostics = .ok (.settled (s.noted plan)) :=
    applyFixes_of_prepare hfix hplan hsame
  obtain ⟨remaining, hlimit⟩ := Nat.exists_eq_add_one.mpr p.passLimit_pos
  have hrun : Id.run (p.runText path content).run =
      .ok (finish path content (s.noted plan) found.diagnostics) := by
    rw [runText, hlimit]
    exact run_converge_succ hlint happly
  have hskips : (s.noted plan).warnings.filter (!·.isSkip) = [] := s.filter_noted_warnings plan
  refine ⟨_, hrun, ?_, ?_, ?_, ?_, rfl, fun w hw => ?_⟩
  · simp [finish, s, Progress.passed]
  · simp [finish, s, Progress.passed]
  · simp [finish, s, Progress.passed]
  · simp [finish, s, Progress.passed]
  · simpa using List.filter_eq_nil_iff.mp hskips w hw

/-- Running again on the final content of a run that converged changes nothing, and reports the
same. -/
theorem run_finalContent {bytes : List UInt8} (hfix : p.options.fix = true)
    (h : Id.run (p.run path bytes).run = .ok r) (hconverged : ∀ w ∈ r.warnings, w.isSkip = true) :
    ∃ again, Id.run (p.run path (Text.encode r.finalContent)).run = .ok again ∧
      again.changed = false ∧ again.fixesApplied = 0 ∧ again.passesRun = 1 ∧
      again.finalContent = r.finalContent ∧ again.diagnostics = r.diagnostics ∧
      ∀ w ∈ again.warnings, w.isSkip = true := by
  obtain ⟨source, -, h⟩ := exists_source_of_run (m := Id) h
  obtain ⟨pass, found', hfound', hreport, halone⟩ := exists_lint_of_converge h
  obtain ⟨found, hfound, hsame⟩ := exists_lint_of_lint hfound' 1
  have halone := halone hfix hconverged
  rw [← hsame] at hreport halone
  rw [hreport, run, decodeSource_encode]
  exact runText_of_leavesAlone hfix hfound halone

/-- The only pass inserts a space, and nothing is left to fix behind it. -/
theorem run_finalContent_capped :
    let p : Pipeline Id :=
      ⟨fun _ => .ok (.branch .root ⟨0, 0⟩ []), [.ofRule Rules.HashSpace.rule], ⟨true, 1⟩⟩
    let r : PipelineResult := ⟨"a.md", ['#', ' ', 'A'], true, [], 1, 1, [], [], false⟩
    Id.run (p.run "a.md" [35, 65]).run = .ok r ∧
      ∃ again, Id.run (p.run "a.md" [35, 32, 65]).run = .ok again ∧ again.changed = false ∧
        again.fixesApplied = 0 ∧ again.passesRun = 1 ∧ again.finalContent = ['#', ' ', 'A'] ∧
        again.diagnostics = [] ∧ ∀ w ∈ again.warnings, w.isSkip = true := by
  intro p r
  have hrun : Id.run (p.run "a.md" [35, 65]).run = .ok r := by cbv
  have hbytes : Text.encode ['#', ' ', 'A'] = [35, 32, 65] := by decide
  have hagain := run_finalContent (p := p) rfl hrun (by simp [r])
  exact ⟨hrun, hbytes ▸ hagain⟩

section
variable {source final next : Text} {s : Progress} {remaining : Nat} {edits : List Edit}
variable {plan : EditPlan} {root : Node}

theorem nextText_of_root (plan : EditPlan) (hroot : CanReturn (p.parser content) (.ok root))
    (hedits : (Id.run (runRules 1 (.ofTree path content root) p.rules).run).map
      (p.applicableEdits ·.diagnostics) = .ok edits)
    (hplan : EditPlan.prepare content edits = .ok plan) :
    p.nextText path content = .ok (plan.applyTo content) := by
  obtain ⟨found, hfound, rfl⟩ := map_eq_ok_iff.mp hedits
  have hlint : Id.run (p.lint path 1 content).run = .ok found := by
    rw [run_lint_of_root 1 hroot, hfound]
  exact nextText_eq hlint hplan

theorem exists_text_of_le {m n : Nat} (h : p.texts path source n = .ok final) (hm : m ≤ n) :
    ∃ content, p.texts path source m = .ok content := by
  induction n generalizing final with
  | zero =>
    obtain rfl := Nat.le_zero.mp hm
    exact ⟨final, h⟩
  | succ n ih =>
    rcases Nat.lt_or_eq_of_le hm with hlt | rfl
    · rw [texts_succ] at h
      obtain ⟨content, hcontent, -⟩ := bind_eq_ok_iff.mp h
      exact ih hcontent (by omega)
    · exact ⟨final, h⟩

/-- What the next pass does is known from the next text. -/
theorem exists_plan_of_nextText (pass : Nat) (h : p.nextText path content = .ok next) :
    ∃ found plan, Id.run (p.lint path pass content).run = .ok found ∧
      EditPlan.prepare content (p.applicableEdits found.diagnostics) = .ok plan ∧
      plan.applyTo content = next := by
  obtain ⟨found, hfound, h⟩ := bind_eq_ok_iff.mp h
  obtain ⟨plan, hplan, h⟩ := bind_eq_ok_iff.mp h
  obtain ⟨found', hfound', hsame⟩ := exists_lint_of_lint hfound pass
  exact ⟨found', plan, hfound', hsame ▸ mapError_eq_ok_iff.mp hplan, Except.ok.inj h⟩

theorem Progress.Follows.exists_run_of_settles (hfix : p.options.fix = true) {d : Nat}
    (hs : s.Follows (p.texts path source))
    (hfinal : p.texts path source (s.passes + d) = .ok final)
    (hsettles : p.nextText path final = .ok final)
    (hdistinct : ∀ k ≤ s.passes + d, ∀ j < k, p.texts path source j ≠ p.texts path source k)
    (hd : d < remaining) :
    ∃ r, Id.run (p.converge path source remaining s).run = .ok r ∧ r.finalContent = final ∧
      r.passesRun = s.passes + d + 1 := by
  induction d generalizing s remaining with
  | zero =>
    obtain ⟨remaining, rfl⟩ := Nat.exists_eq_add_one.mpr hd
    obtain rfl : s.content = final := Except.ok.inj (hs.content.symm.trans hfinal)
    obtain ⟨found, plan, hlint, hplan, hsame⟩ := exists_plan_of_nextText (s.passes + 1) hsettles
    have happly : p.applyFixes (s.passed found) found.diagnostics =
        .ok (.settled ((s.passed found).noted plan)) := applyFixes_of_prepare hfix hplan hsame
    exact ⟨_, run_converge_succ hlint happly, (s.passed found).noted_content plan,
      (s.passed found).noted_passes plan⟩
  | succ d ih =>
    obtain ⟨remaining, rfl⟩ := Nat.exists_eq_add_one.mpr (Nat.zero_lt_of_lt hd)
    obtain ⟨next, hnext⟩ := exists_text_of_le (m := s.passes + 1) hfinal (by omega)
    have hstep : p.nextText path s.content = .ok next :=
      (texts_succ_of_ok hs.content).symm.trans hnext
    obtain ⟨found, plan, hlint, hplan, rfl⟩ := exists_plan_of_nextText (s.passes + 1) hstep
    have hchanged : plan.applyTo s.content ≠ s.content := by
      intro hsame
      rw [hsame, ← hs.content] at hnext
      exact hdistinct (s.passes + 1) (by omega) s.passes (by omega) hnext.symm
    have hnew : plan.applyTo s.content ∉ s.history := by
      intro hmem
      obtain ⟨i, hi, hback⟩ := List.mem_iff_getElem.mp hmem
      have hi' := hs.history i hi
      rw [hback, ← hnext] at hi'
      rw [hs.length_history] at hi
      exact hdistinct (s.passes + 1) (by omega) i hi hi'
    have happly : p.applyFixes (s.passed found) found.diagnostics =
        .ok (.changed ((s.passed found).moved plan)) :=
      applyFixes_of_new hfix hplan hchanged hnew
    have hmoved : ((s.passed found).moved plan).Follows (p.texts path source) :=
      hs.moved hnext hnew
    have hpasses : ((s.passed found).moved plan).passes = s.passes + 1 := rfl
    rw [← Nat.add_assoc, Nat.add_right_comm] at hfinal hdistinct
    have hremaining : d < remaining := by omega
    obtain ⟨r, hrun, hr, hcount⟩ := ih hmoved hfinal hdistinct hremaining
    exact ⟨r, (run_converge_succ hlint happly).trans hrun, hr, by omega⟩

/-- Before the first text that is the final one no text comes back. -/
theorem texts_ne_of_first {d : Nat} (hfinal : p.texts path source d = .ok final)
    (hfirst : ∀ k < d, p.texts path source k ≠ .ok final) :
    ∀ k ≤ d, ∀ j < k, p.texts path source j ≠ p.texts path source k := by
  intro k hk j hj hsame
  refine hfirst (d - k + j) (by omega) ?_
  rw [← hfinal]
  unfold texts at hsame ⊢
  rw [Function.iterate_add_apply, hsame, ← Function.iterate_add_apply, Nat.sub_add_cancel hk]

/-- If the texts of a run settle before there have been enough passes, the run ends well with the
text that they settle on. -/
theorem exists_run_of_settles (hfix : p.options.fix = true) {d : Nat}
    (hfinal : p.texts path source d = .ok final) (hsettles : p.nextText path final = .ok final)
    (hfirst : ∀ k < d, p.texts path source k ≠ .ok final) (hd : d < p.passLimit) :
    ∃ r, Id.run (p.run path (Text.encode source)).run = .ok r ∧ r.finalContent = final ∧
      r.passesRun = d + 1 := by
  have hs : Progress.Follows (p.texts path source) ⟨source, [source], 0, 0, [], []⟩ := .init rfl
  have hdistinct := texts_ne_of_first hfinal hfirst
  rw [run, decodeSource_encode]
  rw [← Nat.zero_add d] at hfinal hdistinct ⊢
  exact hs.exists_run_of_settles hfix hfinal hsettles hdistinct hd

end

end Pipeline
end Tidymark
