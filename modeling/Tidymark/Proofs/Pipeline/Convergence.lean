import Mathlib
import Tidymark.Proofs.Pipeline.Pass

/-! # How runs end

Without effects, what a pass makes of a text depends on the text only, so the texts of a run are the
iterates of one function on the source. A run that succeeds ends with the first of three events: a
pass leaves its text alone, a text comes back, or there have been enough passes. The invariant is
that the history holds all texts so far, and that they differ. -/
namespace Tidymark

open MonadAttach (CanReturn)

/-- Whether the warning is about skipped edits, and not about the end of a run. -/
def PipelineWarning.isSkip : PipelineWarning → Bool
  | skippedEdits _ _ => true
  | _ => false

namespace Pipeline

section
variable {m : Type → Type} [Monad m] [LawfulMonad m]

/-- The number of a pass only goes into failures. -/
theorem map_diagnostics_runRules (pass pass' : Nat) (snapshot : Snapshot)
    (rules : List (ActiveRule m)) :
    Findings.diagnostics <$> runRules pass snapshot rules =
      Findings.diagnostics <$> runRules pass' snapshot rules := by
  induction rules with
  | nil => rfl
  | cons rule rules ih =>
    have hrest (pass : Nat) (f : List Diagnostic → List Diagnostic) :
        (runRules pass snapshot rules >>= fun others => pure (f others.diagnostics)) =
          f <$> Findings.diagnostics <$> runRules pass snapshot rules := by simp
    simp only [runRules, map_bind]
    refine bind_congr fun answer => ?_
    cases answer with
    | ok diagnostics =>
      simp only [map_bind, map_pure]
      rw [hrest pass (diagnostics ++ ·), hrest pass' (diagnostics ++ ·), ih]
    | error error =>
      cases error with
      | cancelled => rfl
      | _ =>
        simp only [map_bind, map_pure]
        exact (hrest pass id).trans (ih ▸ (hrest pass' id).symm)

theorem map_diagnostics_lint [MonadCancel m] (p : Pipeline m) (path : String) (pass pass' : Nat)
    (content : Text) :
    Findings.diagnostics <$> p.lint path pass content =
      Findings.diagnostics <$> p.lint path pass' content := by
  simp only [lint, map_bind]
  refine bind_congr fun cancelled => ?_
  split
  · simp only [ExceptT.bind_throw]
  · simp only [map_bind]
    refine bind_congr fun answer => ?_
    cases answer with
    | error error => rfl
    | ok snapshot => exact map_diagnostics_runRules pass pass' snapshot p.rules

end

/-- What a pass makes of a text: the text after all fixes that it finds, or why there is none. -/
def nextText (p : Pipeline Id) (path : String) (content : Text) : Except LintError Text := do
  let found ← Id.run (p.lint path 1 content).run
  let plan ← (EditPlan.prepare content (p.applicableEdits found.diagnostics)).mapError .edit
  return plan.applyTo content

/-- The texts of a run: the source, and then what each pass makes of the text before. -/
def texts (p : Pipeline Id) (path : String) (source : Text) (n : Nat) : Except LintError Text :=
  (fun text => text >>= p.nextText path)^[n] (.ok source)

section
variable {p : Pipeline Id} {path : String} {source content : Text} {pass n : Nat}
variable {found : Findings} {plan : EditPlan}

/-- The number of the pass aside, a text is always linted alike. -/
theorem exists_lint_of_lint (h : CanReturn (p.lint path pass content) found) (pass' : Nat) :
    ∃ found', Id.run (p.lint path pass' content).run = .ok found' ∧
      found'.diagnostics = found.diagnostics := by
  have hmap := congrArg (fun x => Id.run x.run) (map_diagnostics_lint p path pass' pass content)
  have h : Id.run (p.lint path pass content).run = .ok found := h
  simp only [ExceptT.run_map, Id.run_map, h] at hmap
  cases hlint : Id.run (p.lint path pass' content).run with
  | error e =>
    rw [hlint] at hmap
    cases hmap
  | ok found' =>
    rw [hlint] at hmap
    exact ⟨found', rfl, Except.ok.inj hmap⟩

theorem nextText_eq (h : CanReturn (p.lint path pass content) found)
    (hplan : EditPlan.prepare content (p.applicableEdits found.diagnostics) = .ok plan) :
    p.nextText path content = .ok (plan.applyTo content) := by
  obtain ⟨found', hfirst, hsame⟩ := exists_lint_of_lint h 1
  unfold nextText
  rw [hfirst]
  simp only [bind, Except.bind, hsame, hplan]
  rfl

/-- A text without applicable fixes stays. -/
theorem nextText_of_no_edits (h : CanReturn (p.lint path pass content) found)
    (hnone : p.applicableEdits found.diagnostics = []) : p.nextText path content = .ok content := by
  obtain ⟨hnil, hsame⟩ := EditPlan.applyTo_nil content
  have hplan : EditPlan.prepare content (p.applicableEdits found.diagnostics) =
      .ok ⟨[], [], 0⟩ := by
    rw [hnone]
    exact hnil
  rw [nextText_eq h hplan, hsame]

theorem texts_succ : p.texts path source (n + 1) = p.texts path source n >>= p.nextText path :=
  Function.iterate_succ_apply' _ _ _

theorem texts_succ_of_ok (h : p.texts path source n = .ok content) :
    p.texts path source (n + 1) = p.nextText path content := by
  rw [texts_succ, h]
  rfl

end

/-- If the first value of a sequence of iterates that comes back comes back after `n - j` steps,
then from there on the sequence has this period and no smaller one. -/
theorem dvd_iff_of_first_return {α : Type} {f : α → α} {x : α} {j n : Nat} (hj : j < n)
    (hsame : f^[n] x = f^[j] x) (hfirst : ∀ k < n, ∀ i < k, f^[i] x ≠ f^[k] x) {i : Nat}
    (hi : j ≤ i) (d : Nat) : f^[i + d] x = f^[i] x ↔ n - j ∣ d := by
  have hperiodic : Function.IsPeriodicPt f (n - j) (f^[j] x) := by
    rw [Function.IsPeriodicPt, Function.IsFixedPt, ← Function.iterate_add_apply,
      Nat.sub_add_cancel (Nat.le_of_lt hj), hsame]
  have hmem : f^[j] x ∈ Function.periodicPts f := ⟨n - j, by omega, hperiodic⟩
  have hminimal : Function.minimalPeriod f (f^[j] x) = n - j := by
    refine Nat.le_antisymm (hperiodic.minimalPeriod_le (by omega)) ?_
    by_contra hlt
    have hpos := Function.minimalPeriod_pos_of_mem_periodicPts hmem
    have hback : f^[Function.minimalPeriod f (f^[j] x) + j] x = f^[j] x := by
      rw [Function.iterate_add_apply]
      exact Function.isPeriodicPt_minimalPeriod f (f^[j] x)
    exact hfirst _ (by omega) j (by omega) hback.symm
  obtain ⟨k, rfl⟩ := Nat.exists_eq_add_of_le' hi
  rw [Nat.add_comm (k + j) d, Function.iterate_add_apply f d, Function.iterate_add_apply f k,
    ← hminimal, ← Function.minimalPeriod_apply_iterate hmem k]
  exact Function.isPeriodicPt_iff_minimalPeriod_dvd

/-- Which event ends a run of at most `limit` passes, if its texts are `texts`. -/
inductive Stops (texts : Nat → Except LintError Text) (limit : Nat) (r : PipelineResult) : Prop
  /-- The last pass leaves its text alone. -/
  | settled (hsame : texts r.passesRun = texts (r.passesRun - 1))
      (hfinal : texts (r.passesRun - 1) = .ok r.finalContent)
      (hwarnings : r.warnings.filter (!·.isSkip) = [])
  /-- The last pass changes its text and brings back the text number `j`. From there on the texts
  have the period that the only warning names, and no smaller one. -/
  | repeated (j : Nat) (hj : j + 2 ≤ r.passesRun)
      (hchanged : texts r.passesRun ≠ texts (r.passesRun - 1))
      (hsame : texts r.passesRun = texts j) (hfinal : texts r.passesRun = .ok r.finalContent)
      (hwarnings : r.warnings.filter (!·.isSkip) = [.oscillation r.passesRun (r.passesRun - j)])
      (hperiod : ∀ i d, j ≤ i → (texts (i + d) = texts i ↔ r.passesRun - j ∣ d))
  /-- The last pass makes a new text, and there are no passes left. -/
  | capped (hlimit : r.passesRun = limit) (hnew : ∀ j < r.passesRun, texts j ≠ texts r.passesRun)
      (hfinal : texts r.passesRun = .ok r.finalContent)
      (hwarnings : ∀ w ∈ r.warnings.filter (!·.isSkip), w = .passCapReached r.passesRun)

/-- A run of at most `limit` passes ends with the first event among its texts. -/
structure Ends (texts : Nat → Except LintError Text) (limit : Nat) (r : PipelineResult) :
    Prop where
  one_le : 1 ≤ r.passesRun
  le_limit : r.passesRun ≤ limit
  exists_text : ∀ k ≤ r.passesRun, ∃ content, texts k = .ok content
  /-- No earlier pass leaves its text alone or brings one back. -/
  first : ∀ k < r.passesRun, ∀ j < k, texts j ≠ texts k
  stops : Stops texts limit r
  changed_iff : r.changed = true ↔ texts 0 ≠ .ok r.finalContent

/-- The texts so far are in the history, in their order, and they differ. -/
structure Progress.Follows (texts : Nat → Except LintError Text) (s : Progress) : Prop where
  length_history : s.history.length = s.passes + 1
  history : ∀ i (hi : i < s.history.length), texts i = .ok s.history[i]
  content : texts s.passes = .ok s.content
  distinct : ∀ k ≤ s.passes, ∀ j < k, texts j ≠ texts k
  warnings : s.warnings.filter (!·.isSkip) = []

section
variable {texts : Nat → Except LintError Text} {limit : Nat} {s : Progress} {plan : EditPlan}
variable {found : Findings} {r : PipelineResult} {path : String} {initial : Text}
variable {diagnostics : List Diagnostic}

theorem Progress.filter_noted_warnings (s : Progress) (plan : EditPlan) :
    (s.noted plan).warnings.filter (!·.isSkip) = s.warnings.filter (!·.isSkip) := by
  unfold Progress.noted
  split
  · rfl
  · simp [PipelineWarning.isSkip]

namespace Progress.Follows

theorem init (htexts : texts 0 = .ok initial) :
    Follows texts ⟨initial, [initial], 0, 0, [], []⟩ where
  length_history := rfl
  history i hi := by
    obtain rfl : i = 0 := by simpa using hi
    exact htexts
  content := htexts
  distinct k hk j hj := by
    have : k ≤ 0 := hk
    omega
  warnings := rfl

theorem exists_text (hs : Follows texts s) {k : Nat} (hk : k ≤ s.passes) :
    ∃ content, texts k = .ok content :=
  ⟨_, hs.history k (by rw [hs.length_history]; omega)⟩

theorem exists_text_succ (hs : Follows texts s) {next : Text}
    (hnext : texts (s.passes + 1) = .ok next) {k : Nat} (hk : k ≤ s.passes + 1) :
    ∃ content, texts k = .ok content := by
  rcases Nat.lt_or_eq_of_le hk with hlt | rfl
  · exact hs.exists_text (by omega)
  · exact ⟨next, hnext⟩

/-- The texts are in the history with the next one behind it, too. -/
theorem history_concat (hs : Follows texts s) {next : Text}
    (hnext : texts (s.passes + 1) = .ok next) (i : Nat) (hi : i < (s.history ++ [next]).length) :
    texts i = .ok (s.history ++ [next])[i] := by
  rcases Nat.lt_or_ge i s.history.length with hlt | hge
  · rw [List.getElem_append_left hlt]
    exact hs.history i hlt
  · rw [List.length_append, List.length_singleton] at hi
    obtain rfl : i = s.passes + 1 := by
      rw [hs.length_history] at hi hge
      omega
    rw [List.getElem_append_right hge, List.getElem_singleton]
    exact hnext

theorem moved (hs : Follows texts s) (hnext : texts (s.passes + 1) = .ok (plan.applyTo s.content))
    (hnew : plan.applyTo s.content ∉ s.history) : Follows texts ((s.passed found).moved plan) where
  length_history := by simp [Progress.moved, Progress.passed, hs.length_history]
  history := hs.history_concat hnext
  content := hnext
  distinct k hk j hj := by
    have hk : k ≤ s.passes + 1 := hk
    rcases Nat.lt_or_eq_of_le hk with hlt | rfl
    · exact hs.distinct k (by omega) j hj
    · have hj' : j < s.history.length := by rwa [hs.length_history]
      intro hsame
      rw [hnext, hs.history j hj'] at hsame
      exact hnew (Except.ok.inj hsame ▸ List.getElem_mem hj')
  warnings := by
    rw [Progress.moved, Progress.filter_noted_warnings]
    exact hs.warnings

end Progress.Follows

theorem changed_finish (hinitial : texts 0 = .ok initial) :
    (finish path initial s diagnostics).changed = true ↔
      texts 0 ≠ .ok (finish path initial s diagnostics).finalContent := by
  rw [hinitial, ne_eq, Except.ok.injEq, eq_comm (a := initial)]
  exact bne_iff_ne

theorem Progress.Follows.ends_settled (hs : s.Follows texts) (hinitial : texts 0 = .ok initial)
    (hlimit : s.passes + 1 ≤ limit)
    (hnext : texts (s.passes + 1) = .ok (plan.applyTo s.content))
    (hsame : plan.applyTo s.content = s.content) :
    Ends texts limit (finish path initial ((s.passed found).noted plan) diagnostics) := by
  generalize hr : finish path initial ((s.passed found).noted plan) diagnostics = r
  have hpasses : r.passesRun = s.passes + 1 := by
    rw [← hr, finish, noted_passes]
    rfl
  have hfinal : r.finalContent = s.content := by
    rw [← hr, finish, noted_content]
    rfl
  have hback : texts (s.passes + 1) = texts s.passes := by rw [hnext, hsame, hs.content]
  refine ⟨by omega, by omega, fun k hk => hs.exists_text_succ hnext (hpasses ▸ hk),
    fun k hk => hs.distinct k (by omega), ?_, ?_⟩
  · refine .settled ?_ ?_ ?_
    · rw [hpasses]
      exact hback
    · rw [hpasses, hfinal]
      exact hs.content
    · rw [← hr]
      exact (filter_noted_warnings _ plan).trans hs.warnings
  · rw [← hr]
    exact changed_finish hinitial

end

section
variable {p : Pipeline Id} {path : String} {source : Text} {s : Progress} {plan : EditPlan}
variable {found : Findings} {r : PipelineResult} {limit : Nat}

theorem Progress.Follows.ends_repeated (hs : s.Follows (p.texts path source))
    (hlimit : s.passes + 1 ≤ limit)
    (hnext : p.texts path source (s.passes + 1) = .ok (plan.applyTo s.content))
    (hchanged : plan.applyTo s.content ≠ s.content) {j : Nat}
    (hfound : s.history.findIdx? (· == plan.applyTo s.content) = some j)
    (h : CanReturn (p.finishChanged path source false
      (((s.passed found).moved plan).warned
        (.oscillation (s.passes + 1) (s.history.length - j)))) r) :
    Ends (p.texts path source) limit r := by
  obtain ⟨found', -, hr⟩ := exists_lint_of_finishChanged h
  have hpasses : r.passesRun = s.passes + 1 := by rw [hr]; rfl
  have hfinal : r.finalContent = plan.applyTo s.content := by rw [hr]; rfl
  obtain ⟨hj, hjth, -⟩ := List.findIdx?_eq_some_iff_getElem.mp hfound
  have hback : p.texts path source (s.passes + 1) = p.texts path source j := by
    rw [hnext, hs.history j hj, beq_iff_eq.mp hjth]
  rw [hs.length_history] at hj
  have hmoves : p.texts path source (s.passes + 1) ≠ p.texts path source s.passes := by
    rw [hnext, hs.content]
    exact fun hsame => hchanged (Except.ok.inj hsame)
  have hfirst : ∀ k < r.passesRun, ∀ j < k, p.texts path source j ≠ p.texts path source k :=
    fun k hk => hs.distinct k (by omega)
  refine ⟨by omega, by omega, fun k hk => hs.exists_text_succ hnext (hpasses ▸ hk), hfirst, ?_,
    ?_⟩
  · refine .repeated j ?_ ?_ ?_ ?_ ?_ ?_
    · have : j ≠ s.passes := fun hlast => hmoves (hlast ▸ hback)
      omega
    · rw [hpasses]
      exact hmoves
    · rw [hpasses]
      exact hback
    · rw [hpasses, hfinal]
      exact hnext
    · have hwarnings : ((s.passed found).moved plan).warnings.filter (!·.isSkip) = [] :=
        (filter_noted_warnings (s.passed found) plan).trans hs.warnings
      rw [hpasses, hr]
      simp only [finish, warned, Bool.false_and, Bool.false_eq_true, if_false, List.append_nil,
        List.filter_append, hwarnings, List.nil_append, hs.length_history]
      rfl
    · intro i d hi
      exact dvd_iff_of_first_return (by omega) (hpasses ▸ hback) hfirst hi d
  · rw [hr]
    exact changed_finish rfl

theorem Progress.Follows.ends_capped (hs : s.Follows (p.texts path source))
    (hone : 1 ≤ s.passes) (h : CanReturn (p.finishChanged path source true s) r) :
    Ends (p.texts path source) s.passes r := by
  obtain ⟨found, -, hr⟩ := exists_lint_of_finishChanged h
  have hpasses : r.passesRun = s.passes := by rw [hr]; rfl
  have hfinal : r.finalContent = s.content := by rw [hr]; rfl
  refine ⟨by omega, by omega, fun k hk => hs.exists_text (by omega),
    fun k hk => hs.distinct k (by omega), ?_, ?_⟩
  · refine .capped hpasses ?_ ?_ ?_
    · rw [hpasses]
      exact hs.distinct s.passes le_rfl
    · rw [hpasses, hfinal]
      exact hs.content
    · intro w hw
      rw [hr] at hw
      simp only [finish, List.filter_append, hs.warnings, List.nil_append, List.mem_filter] at hw
      rw [hpasses]
      split at hw
      · exact List.mem_singleton.mp hw.1
      · exact absurd hw.1 List.not_mem_nil
  · rw [hr]
    exact changed_finish rfl

theorem Progress.Follows.ends_of_converge (hfix : p.options.fix = true) {remaining : Nat}
    (hs : s.Follows (p.texts path source)) (hone : 1 ≤ s.passes + remaining)
    (h : CanReturn (p.converge path source remaining s) r) :
    Ends (p.texts path source) (s.passes + remaining) r := by
  induction remaining generalizing s with
  | zero => exact hs.ends_capped hone h
  | succ remaining ih =>
    obtain ⟨found, hfound, outcome, houtcome, h⟩ := exists_outcome_of_converge h
    obtain ⟨plan, hplan, hleads⟩ := leads_of_applyFixes hfix houtcome
    have hnext : p.texts path source (s.passes + 1) = .ok (plan.applyTo s.content) :=
      (texts_succ_of_ok hs.content).trans (nextText_eq hfound hplan)
    cases hleads with
    | settled hsame =>
      obtain rfl := h
      exact hs.ends_settled rfl (by omega) hnext hsame
    | repeated hchanged hj => exact hs.ends_repeated (by omega) hnext hchanged hj h
    | changed _ hnew =>
      have hmoved : ((s.passed found).moved plan).Follows (p.texts path source) :=
        hs.moved hnext hnew
      have hpasses : ((s.passed found).moved plan).passes = s.passes + 1 := rfl
      have hends := ih hmoved (by omega) h
      rwa [hpasses, Nat.add_right_comm] at hends

theorem ends_of_runText (hfix : p.options.fix = true)
    (h : Id.run (p.runText path source).run = .ok r) :
    Ends (p.texts path source) p.passLimit r := by
  have hs : Progress.Follows (p.texts path source) ⟨source, [source], 0, 0, [], []⟩ := .init rfl
  have hone : 1 ≤ 0 + p.passLimit := by
    rw [Nat.zero_add]
    exact Nat.le_max_right _ _
  have hends := hs.ends_of_converge hfix hone h
  rwa [Nat.zero_add] at hends

/-- A run that applies fixes and succeeds ends with the first of three events among the texts that
its passes make of the source. -/
theorem ends_of_run {bytes : List UInt8} (hfix : p.options.fix = true)
    (h : Id.run (p.run path bytes).run = .ok r) :
    ∃ source, decodeSource bytes = .ok source ∧ Ends (p.texts path source) p.passLimit r := by
  obtain ⟨source, hsource, h⟩ := exists_source_of_run (m := Id) h
  exact ⟨source, hsource, ends_of_runText hfix h⟩

/-- A rule that swaps two letters never settles: behind the source its texts have the period 2. -/
theorem ends_of_run_swap :
    let swap : Rule Id := ⟨"X1", "swap", "Swaps a and b", true, true, .error, fun ctx => pure
      [ctx.report ⟨0, 1⟩ "swap"
        [⟨0, 1, if ctx.snapshot.source = ['a'] then ['b'] else ['a']⟩]]⟩
    let p : Pipeline Id :=
      ⟨fun _ => .ok (.branch .root ⟨0, 1⟩ []), [.ofRule swap], ⟨true, 10⟩⟩
    let r : PipelineResult := ⟨"a.md", ['a'], true,
      [⟨"X1", "swap", ⟨0, 1⟩, ⟨⟨1, 1⟩, ⟨1, 2⟩⟩, "swap", .error, none, [⟨0, 1, ['b']⟩]⟩],
      3, 3, [.oscillation 3 2], [], false⟩
    Id.run (p.run "a.md" [120]).run = .ok r ∧ Ends (p.texts "a.md" ['x']) 10 r := by
  intro swap p r
  have hrun : Id.run (p.run "a.md" [120]).run = .ok r := by cbv
  have hdecoded : decodeSource [120] = .ok ['x'] := by cbv
  obtain ⟨source, hsource, hends⟩ := ends_of_run (p := p) rfl hrun
  obtain rfl := Except.ok.inj (hdecoded.symm.trans hsource)
  exact ⟨hrun, hends⟩

end

end Pipeline
end Tidymark
