import Mathlib.Data.List.Nodup
import Tidymark.Proofs.Diagnostic.Order
import Tidymark.Proofs.Pipeline.Visible

/-! # Runs that show less

One pipeline may find in every text what another one finds there, less the diagnostics of some rules
and less the failures of some. If no fix of a diagnostic that is left out may be applied, both make
the same texts, and their results differ by what is left out. So a rule without fixes can be taken
out of a pipeline, and only its own diagnostics and failures go with it. -/
namespace Tidymark

open MonadAttach (CanReturn)

/-- The result without the diagnostics of rules that are not shown, and without the failures of
rules that are not blamed. -/
def PipelineResult.keep (shown blamed : String → Bool) (r : PipelineResult) : PipelineResult :=
  { r with
    diagnostics := r.diagnostics.filter fun d => shown d.ruleId
    errors := r.errors.filter fun e => blamed e.ruleId }

namespace Pipeline

def Findings.keep (shown blamed : String → Bool) (found : Findings) : Findings :=
  ⟨found.diagnostics.filter fun d => shown d.ruleId, found.failures.filter fun e => blamed e.ruleId⟩

def Progress.keep (blamed : String → Bool) (s : Progress) : Progress :=
  { s with failures := s.failures.filter fun e => blamed e.ruleId }

def Outcome.keep (blamed : String → Bool) : Outcome → Outcome
  | settled same => settled (same.keep blamed)
  | repeated next => repeated (next.keep blamed)
  | changed next => changed (next.keep blamed)

variable {m : Type → Type} [Monad m] {shown blamed : String → Bool} {p q : Pipeline m}

/-- `q` finds what `p` finds, but only that of some rules. Among these are all rules whose fixes may
be applied. -/
structure Shows (shown blamed : String → Bool) (p q : Pipeline m) : Prop where
  parser_eq : q.parser = p.parser
  options_eq : q.options = p.options
  isApplicable_eq : q.isApplicable = p.isApplicable
  shown_of_applicable : ∀ d, p.isApplicable d = true → shown d.ruleId = true
  runRules_eq : ∀ pass path content root,
    runRules pass (.ofTree path content root) q.rules =
      Findings.keep shown blamed <$> runRules pass (.ofTree path content root) p.rules

@[simp] theorem Progress.keep_content (s : Progress) : (s.keep blamed).content = s.content := rfl

@[simp] theorem Progress.keep_history (s : Progress) : (s.keep blamed).history = s.history := rfl

@[simp] theorem Progress.keep_passes (s : Progress) : (s.keep blamed).passes = s.passes := rfl

theorem Progress.noted_keep (s : Progress) (plan : EditPlan) :
    (s.keep blamed).noted plan = (s.noted plan).keep blamed := by
  unfold noted
  split <;> rfl

theorem Progress.passed_keep (s : Progress) (found : Findings) :
    (s.keep blamed).passed (found.keep shown blamed) = (s.passed found).keep blamed := by
  simp only [passed, keep, Findings.keep, List.filter_append]

theorem finish_keep (path : String) (initial : Text) (s : Progress)
    (diagnostics : List Diagnostic) :
    finish path initial (s.keep blamed) (diagnostics.filter fun d => shown d.ruleId) =
      (finish path initial s diagnostics).keep shown blamed := by
  simp only [finish, Diagnostic.arrange_filter]
  rfl

namespace Shows

variable (h : Shows shown blamed p q)
include h

theorem shown_and_isApplicable (d : Diagnostic) :
    (shown d.ruleId && q.isApplicable d) = p.isApplicable d := by
  rw [h.isApplicable_eq]
  cases happlicable : p.isApplicable d with
  | false => exact Bool.and_false _
  | true => rw [h.shown_of_applicable d happlicable, Bool.and_self]

theorem any_isApplicable (diagnostics : List Diagnostic) :
    (diagnostics.filter fun d => shown d.ruleId).any q.isApplicable =
      diagnostics.any p.isApplicable := by
  simp only [List.any_filter, h.shown_and_isApplicable]

theorem applicableEdits_eq (diagnostics : List Diagnostic) :
    q.applicableEdits (diagnostics.filter fun d => shown d.ruleId) =
      p.applicableEdits diagnostics := by
  simp only [applicableEdits, List.filter_filter, Bool.and_comm (q.isApplicable _),
    h.shown_and_isApplicable]

theorem applyFixes_keep (s : Progress) (diagnostics : List Diagnostic) :
    q.applyFixes (s.keep blamed) (diagnostics.filter fun d => shown d.ruleId) =
      Outcome.keep blamed <$> p.applyFixes s diagnostics := by
  simp only [applyFixes, h.applicableEdits_eq, h.options_eq, ← Progress.noted.eq_1]
  split
  · rfl
  · rw [Progress.keep_content]
    cases EditPlan.prepare s.content (p.applicableEdits diagnostics) with
    | error e => rfl
    | ok plan =>
      simp only [Except.mapError, bind, Except.bind, Progress.noted_keep, Progress.keep_content,
        Progress.keep_history, Progress.keep_passes]
      split
      · rfl
      · cases (s.noted plan).history.findIdx? (· == plan.applyTo (s.noted plan).content) <;> rfl

variable [LawfulMonad m] [MonadCancel m]
variable (path : String) (initial : Text) (s : Progress)

theorem lint_keep (pass : Nat) (content : Text) :
    q.lint path pass content = Findings.keep shown blamed <$> p.lint path pass content := by
  simp only [lint, h.parser_eq, map_bind, Snapshot.ofSource, liftM_bind, bind_assoc, liftM_pure,
    pure_bind]
  refine bind_congr fun cancelled => ?_
  split
  · simp only [ExceptT.bind_throw, ExceptT.map_throw]
  · simp only [map_bind]
    refine bind_congr fun answer => ?_
    cases answer with
    | error error => exact (ExceptT.map_throw _ _).symm
    | ok root => exact h.runRules_eq pass path content root

theorem finishChanged_keep (capped : Bool) :
    q.finishChanged path initial capped (s.keep blamed) =
      PipelineResult.keep shown blamed <$> p.finishChanged path initial capped s := by
  simp only [finishChanged, h.lint_keep, bind_map_left, map_bind]
  refine bind_congr fun found => ?_
  simp only [map_pure, ← finish_keep, h.any_isApplicable, Findings.keep, Progress.keep,
    List.filter_append]

theorem converge_keep (remaining : Nat) :
    q.converge path initial remaining (s.keep blamed) =
      PipelineResult.keep shown blamed <$> p.converge path initial remaining s := by
  induction remaining generalizing s with
  | zero => exact h.finishChanged_keep path initial s true
  | succ remaining ih =>
    simp only [converge, h.lint_keep, bind_map_left, map_bind]
    refine bind_congr fun found => ?_
    have houtcome : (liftM (q.applyFixes ((s.keep blamed).passed (found.keep shown blamed))
        (found.keep shown blamed).diagnostics) : ExceptT LintError m Outcome) =
          Outcome.keep blamed <$> liftM (p.applyFixes (s.passed found) found.diagnostics) := by
      rw [Progress.passed_keep]
      exact (congrArg _ (h.applyFixes_keep (s.passed found) found.diagnostics)).trans
        (monadLift_map _ _)
    refine (congrArg (· >>= _) houtcome).trans ?_
    rw [bind_map_left]
    refine bind_congr fun outcome => ?_
    cases outcome with
    | settled same =>
      simp only [Outcome.keep, Findings.keep, finish_keep, map_pure]
    | repeated next => exact h.finishChanged_keep path initial next false
    | changed next => exact ih next

theorem run_keep (bytes : List UInt8) :
    q.run path bytes = PipelineResult.keep shown blamed <$> p.run path bytes := by
  unfold run
  cases decodeSource bytes with
  | error error => exact (ExceptT.map_throw _ _).symm
  | ok source =>
    have hlimit : q.passLimit = p.passLimit := by rw [passLimit, h.options_eq, passLimit]
    simp only [runText, hlimit]
    exact h.converge_keep path source ⟨source, [source], 0, 0, [], []⟩ p.passLimit

end Shows

end Pipeline

section
variable {m : Type → Type} [Monad m] [MonadAttach m]

/-- What the rule reports of a tree carries its id. -/
def ActiveRule.Signs (r : ActiveRule m) : Prop :=
  ∀ path content root found, CanReturn (r.check (.ofTree path content root)) found →
    ∀ d ∈ found, d.ruleId = r.id

/-- The rule has no effect but its answer, and is not cancelled. Where computations have no effects,
only the second part says something. -/
structure ActiveRule.OnlyAnswers (r : ActiveRule m) : Prop where
  no_effect : ∀ snapshot, (fun _ => ()) <$> (r.check snapshot).run = pure ()
  not_cancelled : ∀ snapshot, ¬ CanReturn (r.check snapshot).run (.error .cancelled)

end

section
variable {m : Type → Type} [Monad m] [LawfulMonad m] [MonadAttach m] [LawfulMonadAttach m]

theorem ActiveRule.signs_of_mem_all [MonadCancel m] {r : ActiveRule m} (h : r.rule ∈ Rules.all) :
    r.Signs := by
  intro path content root found hfound d hd
  have hharmless := Rules.harmless_of_mem_all h (r.context (.ofTree path content root)) content
    ⟨path, root, rfl⟩ found hfound d hd
  exact hharmless.ruleId

end

namespace Pipeline

variable {m : Type → Type} [Monad m] [LawfulMonad m] [MonadAttach m] [LawfulMonadAttach m]
variable {shown blamed : String → Bool} {pass : Nat} {path : String} {content : Text} {root : Node}
variable {r : ActiveRule m} {rules rules' : List (ActiveRule m)}

omit [LawfulMonadAttach m] in
theorem bind_of_onlyAnswers {β : Type} (h : r.OnlyAnswers) (snapshot : Snapshot)
    (y : ExceptT LintError m β) :
    ((liftM (r.check snapshot).run : ExceptT LintError m _) >>= fun _ => y) = y := by
  have hunit : (liftM ((fun _ => ()) <$> (r.check snapshot).run) : ExceptT LintError m Unit) =
      pure () := by
    rw [h.no_effect, liftM_pure]
  rw [liftM_map] at hunit
  calc
    _ = ((fun _ => ()) <$> (liftM (r.check snapshot).run : ExceptT LintError m _)) >>= fun _ => y :=
      (bind_map_left _ _ _).symm
    _ = y := by rw [hunit, pure_bind]

/-- A rule that is shown and blamed may be put in front of both. -/
theorem keep_runRules_cons_of_shown (hshown : shown r.id = true) (hblamed : blamed r.id = true)
    (hsigns : r.Signs)
    (hrest : runRules pass (.ofTree path content root) rules' =
      Findings.keep shown blamed <$> runRules pass (.ofTree path content root) rules) :
    runRules pass (.ofTree path content root) (r :: rules') =
      Findings.keep shown blamed <$> runRules pass (.ofTree path content root) (r :: rules) := by
  simp only [runRules, map_bind]
  refine bind_congr_of_canReturn (m := ExceptT LintError m) fun answer hanswer => ?_
  have hanswer : CanReturn (r.check (.ofTree path content root)).run answer :=
    canReturn_lift hanswer
  cases answer with
  | ok diagnostics =>
    have hall : (diagnostics.filter fun d => shown d.ruleId) = diagnostics := by
      refine List.filter_eq_self.mpr fun d hd => ?_
      rw [hsigns path content root diagnostics hanswer d hd]
      exact hshown
    simp only [hrest, bind_map_left, map_bind, map_pure, Findings.keep, List.filter_append, hall]
  | error error =>
    cases error with
    | cancelled => exact (ExceptT.map_throw _ _).symm
    | _ =>
      simp only [hrest, bind_map_left, map_bind, map_pure, Findings.keep, List.filter_cons, hblamed,
        if_true]

/-- A rule that is neither shown nor blamed may be left out. -/
theorem keep_runRules_cons_of_hidden (hshown : shown r.id = false) (hblamed : blamed r.id = false)
    (hsigns : r.Signs) (honly : r.OnlyAnswers) :
    Findings.keep shown blamed <$> runRules pass (.ofTree path content root) (r :: rules) =
      Findings.keep shown blamed <$> runRules pass (.ofTree path content root) rules := by
  refine Eq.trans ?_ (bind_of_onlyAnswers honly (.ofTree path content root) _)
  simp only [runRules, map_bind]
  refine bind_congr_of_canReturn (m := ExceptT LintError m) fun answer hanswer => ?_
  have hanswer : CanReturn (r.check (.ofTree path content root)).run answer :=
    canReturn_lift hanswer
  cases answer with
  | ok diagnostics =>
    have hnone : (diagnostics.filter fun d => shown d.ruleId) = [] := by
      refine List.filter_eq_nil_iff.mpr fun d hd => ?_
      rw [hsigns path content root diagnostics hanswer d hd, hshown]
      exact Bool.false_ne_true
    simp only [map_eq_pure_bind, bind_assoc, pure_bind, Findings.keep, List.filter_append, hnone,
      List.nil_append]
  | error error =>
    cases error with
    | cancelled => exact absurd hanswer (honly.not_cancelled _)
    | _ =>
      simp only [map_eq_pure_bind, bind_assoc, pure_bind, Findings.keep, List.filter_cons, hblamed,
        Bool.false_eq_true, if_false]

theorem keep_runRules_append {kept : List (ActiveRule m)}
    (hkept : ∀ r ∈ kept, shown r.id = true ∧ blamed r.id = true ∧ r.Signs)
    (hrest : runRules pass (.ofTree path content root) rules' =
      Findings.keep shown blamed <$> runRules pass (.ofTree path content root) rules) :
    runRules pass (.ofTree path content root) (kept ++ rules') =
      Findings.keep shown blamed <$> runRules pass (.ofTree path content root) (kept ++ rules) := by
  induction kept with
  | nil => exact hrest
  | cons r kept ih =>
    obtain ⟨hshown, hblamed, hsigns⟩ := hkept r List.mem_cons_self
    have hrest := ih fun r hr => hkept r (List.mem_cons_of_mem _ hr)
    exact keep_runRules_cons_of_shown hshown hblamed hsigns hrest

theorem keep_runRules (hrules : ∀ r ∈ rules, shown r.id = true ∧ blamed r.id = true ∧ r.Signs) :
    runRules pass (.ofTree path content root) rules =
      Findings.keep shown blamed <$> runRules pass (.ofTree path content root) rules := by
  have hnil : (runRules pass (.ofTree path content root) [] : ExceptT LintError m Findings) =
      Findings.keep shown blamed <$> runRules pass (.ofTree path content root) [] := by
    rw [runRules, map_pure]
    rfl
  simpa using keep_runRules_append hrules hnil

variable {parser : Parser m} {options : PassOptions} {before after : List (ActiveRule m)}

theorem shows_without (hids : ((before ++ r :: after).map ActiveRule.id).Nodup)
    (hsigns : ∀ rule ∈ before ++ r :: after, rule.Signs) (hfix : r.fix = false)
    (honly : r.OnlyAnswers) :
    Shows (· != r.id) (· != r.id) ⟨parser, before ++ r :: after, options⟩
      ⟨parser, before ++ after, options⟩ := by
  have hothers : ∀ rule ∈ before ++ after, (rule.id != r.id) = true := by
    rw [List.map_append, List.map_cons, List.nodup_middle, ← List.map_append] at hids
    intro rule hrule
    refine bne_iff_ne.mpr fun hid => (List.nodup_cons.mp hids).1 ?_
    exact hid ▸ List.mem_map_of_mem hrule
  have hself : (r.id != r.id) = false := bne_self_eq_false _
  refine ⟨rfl, rfl, ?_, ?_, ?_⟩
  · funext d
    simp [isApplicable, hfix]
  · intro d happlicable
    simp only [isApplicable, Bool.and_eq_true, List.any_eq_true, beq_iff_eq] at happlicable
    obtain ⟨-, fixer, hfixer, hallowed, hid⟩ := happlicable
    have hmem : fixer = r ∨ fixer ∈ before ++ after := by
      simpa [or_left_comm] using hfixer
    rcases hmem with rfl | hmem
    · rw [hfix] at hallowed
      cases hallowed
    · exact hid ▸ hothers fixer hmem
  · intro pass path content root
    have hkept : ∀ rule ∈ before ++ after,
        (rule.id != r.id) = true ∧ (rule.id != r.id) = true ∧ rule.Signs := by
      intro rule hrule
      have hmem : rule ∈ before ++ r :: after := by
        rw [List.mem_append] at hrule ⊢
        exact hrule.imp_right (List.mem_cons_of_mem r)
      exact ⟨hothers rule hrule, hothers rule hrule, hsigns rule hmem⟩
    refine keep_runRules_append (fun rule hrule => hkept rule (List.mem_append_left _ hrule)) ?_
    have hafter : runRules pass (.ofTree path content root) after =
        Findings.keep (· != r.id) (· != r.id) <$> runRules pass (.ofTree path content root) after :=
      keep_runRules fun rule hrule => hkept rule (List.mem_append_right _ hrule)
    rw [hafter]
    refine (keep_runRules_cons_of_hidden ?_ ?_ (hsigns r (by simp)) honly).symm
    · exact hself
    · exact hself

variable [MonadCancel m]

/-- A rule whose fixes may not be applied, and that only answers, has no part in what a run makes of
a text. Without it the run answers or fails as with it, and its result is the same but for what the
rule reports and where it fails. -/
theorem run_without (path : String) (bytes : List UInt8)
    (hids : ((before ++ r :: after).map ActiveRule.id).Nodup)
    (hsigns : ∀ rule ∈ before ++ r :: after, rule.Signs) (hfix : r.fix = false)
    (honly : r.OnlyAnswers) :
    run ⟨parser, before ++ after, options⟩ path bytes =
      (fun result => { result with
        diagnostics := result.diagnostics.filter (·.ruleId != r.id)
        errors := result.errors.filter (·.ruleId != r.id) }) <$>
      run ⟨parser, before ++ r :: after, options⟩ path bytes :=
  (shows_without hids hsigns hfix honly).run_keep path bytes

/-- A rule that fails on the source and reports on the text behind the first pass, with an edit that
is in the way of the other rule's. -/
theorem run_without_nosy :
    let space : ActiveRule Id := .ofRule Rules.HashSpace.rule
    let nosy : ActiveRule Id := ⟨⟨"X1", "nosy", "Looks at the first line", true, true, .error,
      fun ctx => if ctx.snapshot.source = ['#', 'A'] then throw (.failed "no gap") else
        pure [ctx.report ⟨0, 2⟩ "gap" [⟨1, 2, []⟩]]⟩, .error, Json.empty, false⟩
    let parser : Parser Id := fun _ => .ok (.branch .root ⟨0, 0⟩ [])
    let r : PipelineResult := ⟨"a.md", ['#', ' ', 'A'], true,
      [⟨"X1", "nosy", ⟨0, 2⟩, ⟨⟨1, 1⟩, ⟨1, 3⟩⟩, "gap", .error, none, [⟨1, 2, []⟩]⟩], 2, 1, [],
      [⟨"X1", 1, .failed "no gap"⟩], false⟩
    Id.run (run ⟨parser, [space] ++ nosy :: [], ⟨true, 10⟩⟩ "a.md" [35, 65]).run = .ok r ∧
      Id.run (run ⟨parser, [space] ++ [], ⟨true, 10⟩⟩ "a.md" [35, 65]).run =
        .ok { r with diagnostics := [], errors := [] } := by
  intro space nosy parser r
  have hrun : Id.run (run ⟨parser, [space] ++ nosy :: [], ⟨true, 10⟩⟩ "a.md" [35, 65]).run =
      .ok r := by cbv
  have hsigns : ∀ rule ∈ [space] ++ nosy :: [], rule.Signs := by
    intro rule hrule
    rcases List.mem_pair.mp hrule with rfl | rfl
    · exact ActiveRule.signs_of_mem_all (by simp [Rules.all, space, ActiveRule.ofRule])
    · intro path content root found hfound d hd
      have hfound : (if content = ['#', 'A'] then .error (RuleError.failed "no gap") else .ok _) =
        Except.ok found := hfound
      split at hfound
      · cases hfound
      · obtain rfl := Except.ok.inj hfound
        obtain rfl := List.mem_singleton.mp hd
        rfl
  have honly : nosy.OnlyAnswers := by
    refine ⟨fun snapshot => rfl, fun snapshot h => ?_⟩
    have h : (if snapshot.source = ['#', 'A'] then .error (RuleError.failed "no gap") else .ok _) =
      Except.error RuleError.cancelled := h
    split at h <;> cases h
  have hids : (([space] ++ nosy :: []).map ActiveRule.id).Nodup := by decide
  have hwithout : run ⟨parser, [space] ++ [], ⟨true, 10⟩⟩ "a.md" [35, 65] = _ :=
    run_without "a.md" [35, 65] hids hsigns rfl honly
  refine ⟨hrun, ?_⟩
  rw [hwithout, ExceptT.run_map, Id.run_map, hrun]
  rfl

end Pipeline
end Tidymark
