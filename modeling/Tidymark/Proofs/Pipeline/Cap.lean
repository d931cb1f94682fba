import Mathlib
import Tidymark.Proofs.Pipeline.Report

/-! # The warning at the limit

A run that ends at its limit warns if the lint of its final content still finds fixes to apply. This
is decided by the fixes and not by what one more pass would make of them: the pass could not change
the content without any, but those that it finds may write what stands there already. -/
namespace Tidymark.Pipeline

open MonadAttach (CanReturn)

/-- A run of at most `limit` passes, with these texts, ends at its limit: its last pass still makes
a new text. -/
structure Capped (texts : Nat → Except LintError Text) (limit : Nat) (r : PipelineResult) :
    Prop where
  passesRun_eq : r.passesRun = limit
  new : ∀ j < r.passesRun, texts j ≠ texts r.passesRun

variable {texts : Nat → Except LintError Text} {limit n : Nat} {r : PipelineResult}
variable {p : Pipeline Id} {path : String} {source : Text} {s : Progress} {found : Findings}

theorem passCapReached_mem_filter_iff {warnings : List PipelineWarning} :
    .passCapReached n ∈ warnings.filter (!·.isSkip) ↔ .passCapReached n ∈ warnings := by
  simp [PipelineWarning.isSkip]

/-- No other end of a run gives the warning. -/
theorem Ends.capped_of_mem (h : Ends texts limit r) (hmem : .passCapReached n ∈ r.warnings) :
    n = limit ∧ Capped texts limit r := by
  rw [← passCapReached_mem_filter_iff] at hmem
  cases h.stops with
  | settled _ _ hwarnings =>
    rw [hwarnings] at hmem
    cases hmem
  | repeated j _ _ _ _ hwarnings =>
    rw [hwarnings, List.mem_singleton] at hmem
    cases hmem
  | capped hlimit hnew _ hwarnings =>
    obtain rfl := PipelineWarning.passCapReached.inj (hwarnings _ hmem)
    exact ⟨hlimit, hlimit, hnew⟩

/-- What the last pass makes is in no history if the run ends at its limit. -/
theorem Capped.not_mem_history (h : Capped texts limit r) (hs : s.Follows texts)
    (hpasses : r.passesRun = s.passes + 1) {next : Text}
    (hnext : texts (s.passes + 1) = .ok next) : next ∉ s.history := by
  intro hmem
  obtain ⟨j, hj, rfl⟩ := List.mem_iff_getElem.mp hmem
  have hearlier : j < r.passesRun := by
    rw [hs.length_history] at hj
    omega
  refine h.new j hearlier ?_
  rw [hpasses, hnext, hs.history j hj]

/-- At its limit a run warns of the fixes that are left, if there are any. -/
theorem Progress.Follows.warnings_of_capped (hfix : p.options.fix = true) {remaining : Nat}
    (hs : s.Follows (p.texts path source)) (h : CanReturn (p.converge path source remaining s) r)
    (hcapped : Capped (p.texts path source) (s.passes + remaining) r)
    (hfound : CanReturn (p.lint path (r.passesRun + 1) r.finalContent) found) :
    r.warnings.filter (!·.isSkip) =
      if found.diagnostics.any p.isApplicable then [.passCapReached r.passesRun] else [] := by
  induction remaining generalizing s with
  | zero =>
    obtain ⟨found', hfound', rfl⟩ := exists_lint_of_finishChanged h
    obtain rfl : found' = found := Except.ok.inj (hfound'.symm.trans hfound)
    simp only [finish, Bool.true_and, List.filter_append, hs.warnings, List.nil_append]
    split <;> rfl
  | succ remaining ih =>
    obtain ⟨found', hfound', outcome, houtcome, h⟩ := exists_outcome_of_converge h
    obtain ⟨plan, hplan, hleads⟩ := leads_of_applyFixes hfix houtcome
    have hnext : p.texts path source (s.passes + 1) = .ok (plan.applyTo s.content) :=
      (texts_succ_of_ok hs.content).trans (nextText_eq hfound' hplan)
    cases hleads with
    | settled hsame =>
      obtain rfl := h
      have hold : plan.applyTo s.content ∈ s.history := by
        rw [← hs.dropLast_history]
        exact List.mem_append_right _ (List.mem_singleton.mpr hsame)
      exact absurd hold (hcapped.not_mem_history hs (noted_passes _ plan) hnext)
    | repeated _ hfirst =>
      obtain ⟨_, -, rfl⟩ := exists_lint_of_finishChanged h
      obtain ⟨hj, hjth, -⟩ := List.findIdx?_eq_some_iff_getElem.mp hfirst
      have hold : plan.applyTo s.content ∈ s.history := beq_iff_eq.mp hjth ▸ List.getElem_mem hj
      exact absurd hold (hcapped.not_mem_history hs rfl hnext)
    | changed _ hnew =>
      have hmoved : ((s.passed found').moved plan).Follows (p.texts path source) :=
        hs.moved hnext hnew
      have hpasses : ((s.passed found').moved plan).passes = s.passes + 1 := rfl
      refine ih hmoved h ?_
      rwa [hpasses, Nat.add_right_comm]

theorem passCapReached_mem_iff_of_runText (hfix : p.options.fix = true)
    (h : Id.run (p.runText path source).run = .ok r)
    (hfound : CanReturn (p.lint path (r.passesRun + 1) r.finalContent) found) :
    .passCapReached n ∈ r.warnings ↔
      n = p.passLimit ∧ Capped (p.texts path source) p.passLimit r ∧
        p.applicableEdits found.diagnostics ≠ [] := by
  have hs : Progress.Follows (p.texts path source) ⟨source, [source], 0, 0, [], []⟩ := .init rfl
  have hwarnings (hcapped : Capped (p.texts path source) p.passLimit r) :=
    hs.warnings_of_capped hfix h ((Nat.zero_add p.passLimit).symm ▸ hcapped) hfound
  rw [Ne, applicableEdits_eq_nil_iff, Bool.not_eq_false]
  constructor
  · intro hmem
    obtain ⟨hn, hcapped⟩ := (ends_of_runText hfix h).capped_of_mem hmem
    refine ⟨hn, hcapped, ?_⟩
    rw [← passCapReached_mem_filter_iff, hwarnings hcapped] at hmem
    by_contra hnone
    rw [if_neg hnone] at hmem
    cases hmem
  · rintro ⟨rfl, hcapped, hsome⟩
    rw [← passCapReached_mem_filter_iff, hwarnings hcapped, if_pos hsome, hcapped.passesRun_eq]
    exact List.mem_singleton_self _

/-- A run that applies fixes and succeeds warns of its limit if and only if it ends there and the
lint of its final content finds fixes to apply. So it warns if it ends there and one more pass would
not leave that content as it is. -/
theorem passCapReached_mem_iff {bytes : List UInt8} (hfix : p.options.fix = true)
    (h : Id.run (p.run path bytes).run = .ok r) :
    ∃ source found, decodeSource bytes = .ok source ∧
      Id.run (p.lint path (r.passesRun + 1) r.finalContent).run = .ok found ∧
      (∀ n, .passCapReached n ∈ r.warnings ↔
        n = p.passLimit ∧ Capped (p.texts path source) p.passLimit r ∧
          p.applicableEdits found.diagnostics ≠ []) ∧
      (Capped (p.texts path source) p.passLimit r →
        p.nextText path r.finalContent ≠ .ok r.finalContent →
          .passCapReached p.passLimit ∈ r.warnings) := by
  obtain ⟨source, hsource, h⟩ := exists_source_of_run (m := Id) h
  obtain ⟨_, _, hlast, -⟩ := exists_lint_of_converge h
  obtain ⟨found, hfound, -⟩ := exists_lint_of_lint hlast (r.passesRun + 1)
  refine ⟨source, found, hsource, hfound,
    fun n => passCapReached_mem_iff_of_runText hfix h hfound, fun hcapped hmoves => ?_⟩
  have hsome : p.applicableEdits found.diagnostics ≠ [] := fun hnone =>
    hmoves (nextText_of_no_edits hfound hnone)
  exact (passCapReached_mem_iff_of_runText hfix h hfound).mpr ⟨rfl, hcapped, hsome⟩

/-- After its only pass, a rule that swaps two letters has one to swap. -/
theorem passCapReached_mem_iff_swap :
    let swap : Rule Id := ⟨"X1", "swap", "Swaps a and b", true, true, .error, fun ctx => pure
      [ctx.report ⟨0, 1⟩ "swap"
        [⟨0, 1, if ctx.snapshot.source = ['a'] then ['b'] else ['a']⟩]]⟩
    let p : Pipeline Id :=
      ⟨fun _ => .ok (.branch .root ⟨0, 1⟩ []), [.ofRule swap], ⟨true, 1⟩⟩
    let r : PipelineResult := ⟨"a.md", ['a'], true,
      [⟨"X1", "swap", ⟨0, 1⟩, ⟨⟨1, 1⟩, ⟨1, 2⟩⟩, "swap", .error, none, [⟨0, 1, ['b']⟩]⟩],
      1, 1, [.passCapReached 1], [], false⟩
    Id.run (p.run "a.md" [120]).run = .ok r ∧ Capped (p.texts "a.md" ['x']) 1 r ∧
      p.nextText "a.md" ['a'] = .ok ['b'] ∧ .passCapReached 1 ∈ r.warnings := by
  intro swap p r
  have hrun : Id.run (p.run "a.md" [120]).run = .ok r := by cbv
  have hdecoded : decodeSource [120] = .ok ['x'] := by cbv
  have hnext : p.nextText "a.md" ['a'] = .ok ['b'] := by cbv
  obtain ⟨source, found, hsource, -, hiff, hmoves⟩ := passCapReached_mem_iff (p := p) rfl hrun
  obtain rfl := Except.ok.inj (hdecoded.symm.trans hsource)
  have hcapped : Capped (p.texts "a.md" ['x']) 1 r :=
    ((hiff 1).mp (List.mem_singleton_self _)).2.1
  have hmoves' : p.nextText "a.md" r.finalContent ≠ .ok r.finalContent := by
    rw [hnext]
    decide
  exact ⟨hrun, hcapped, hnext, hmoves hcapped hmoves'⟩

/-- The fixes that are left may write what stands there already: then the warning comes although one
more pass would leave the content as it is. -/
theorem passCapReached_mem_of_same_text :
    let rule : Rule Id := ⟨"X1", "set", "Sets b", true, true, .error, fun ctx => pure
      [ctx.report ⟨0, 1⟩ "set" [⟨0, 1, ['b']⟩]]⟩
    let p : Pipeline Id :=
      ⟨fun _ => .ok (.branch .root ⟨0, 1⟩ []), [.ofRule rule], ⟨true, 1⟩⟩
    let r : PipelineResult := ⟨"a.md", ['b'], true,
      [⟨"X1", "set", ⟨0, 1⟩, ⟨⟨1, 1⟩, ⟨1, 2⟩⟩, "set", .error, none, [⟨0, 1, ['b']⟩]⟩],
      1, 1, [.passCapReached 1], [], false⟩
    Id.run (p.run "a.md" [97]).run = .ok r ∧ p.nextText "a.md" ['b'] = .ok ['b'] ∧
      ¬ ((∃ n, .passCapReached n ∈ r.warnings) ↔
        Capped (p.texts "a.md" ['a']) p.passLimit r ∧
          ∃ text, p.nextText "a.md" r.finalContent = .ok text ∧ text ≠ r.finalContent) := by
  intro rule p r
  have hrun : Id.run (p.run "a.md" [97]).run = .ok r := by cbv
  have hnext : p.nextText "a.md" ['b'] = .ok ['b'] := by cbv
  refine ⟨hrun, hnext, fun hexact => ?_⟩
  obtain ⟨-, text, htext, hmoves⟩ := hexact.mp ⟨1, List.mem_singleton_self _⟩
  exact hmoves (Except.ok.inj (htext.symm.trans hnext))

end Tidymark.Pipeline
