import Tidymark.Idempotency
import Tidymark.Proofs.Markdown.Conversion
import Tidymark.Proofs.Rule.Harmless
import Tidymark.Proofs.Tree.Prose

/-! # Fixing once, step by step

What comes of fixing a text once with a rule where nothing stops the rule: it lints the text, applies
what it found, and lints the text again. Where the rule accepts its options, and what it makes of a
text of prose has nothing left to report, this succeeds. -/
namespace Tidymark

section
variable {ε α β : Type} {x : ExceptT ε Id α} {f : α → ExceptT ε Id β} {a : α} {answer : Except ε β}

/-- Behind an answer that is known. -/
theorem run_bind_of_run (hx : Id.run x.run = .ok a) (hf : Id.run (f a).run = answer) :
    Id.run (x >>= f).run = answer := by
  rw [ExceptT.run_bind, Id.run_bind, hx]
  exact hf

end

theorem Parser.markdown_eq_ok {source : Text} {root : Node} (hroot : Markdown.parse source = root)
    (hsize : source.size ≤ sizeLimit) : (markdown : Parser Id) source = .ok root :=
  Markdown.read_eq_ok_iff.mpr ⟨hsize, hroot⟩

theorem run_runSteps (parts : List (List Diagnostic)) :
    Id.run (runSteps (m := Id) (parts.map .ok)).run = .ok parts.flatten := by
  induction parts with
  | nil => rfl
  | cons part parts ih =>
    have hpoll : Id.run (poll (m := Id)).run = .ok () := rfl
    exact run_bind_of_run hpoll (run_bind_of_run rfl (run_bind_of_run ih rfl))

/-- All steps of a rule that answer, one after another. -/
theorem Rule.run_ofSteps {id name description : String} {canFix : Bool}
    {steps : RuleContext → Except RuleError (List (Except RuleError (List Diagnostic)))}
    {ctx : RuleContext} {parts : List (List Diagnostic)} (h : steps ctx = .ok (parts.map .ok)) :
    Id.run ((ofSteps id name description canFix steps : Rule Id).check ctx).run =
      .ok parts.flatten :=
  run_bind_of_run h (run_runSteps parts)

theorem Rule.run_ofSteps_error {id name description : String} {canFix : Bool}
    {steps : RuleContext → Except RuleError (List (Except RuleError (List Diagnostic)))}
    {ctx : RuleContext} {error : RuleError} (h : steps ctx = .error error) :
    Id.run ((ofSteps id name description canFix steps : Rule Id).check ctx).run = .error error := by
  rw [ofSteps]
  simp only [h]
  rfl

/-- An option can be read, or the rule turns it down. -/
theorem RuleContext.option_cases {α : Type} (ctx : RuleContext) (key : String) (fallback : α)
    (read : Json → Option α) (expected : String) :
    (∃ a, ctx.option key fallback read expected = .ok a) ∨
      ∃ message, ctx.option key fallback read expected =
        .error (.invalidOption key message) := by
  unfold option
  split
  · exact .inl ⟨_, rfl⟩
  · exact .inl ⟨_, rfl⟩
  · split
    · exact .inl ⟨_, rfl⟩
    · exact .inr ⟨_, rfl⟩

/-- A count among the options can be read, or the rule turns it down. -/
theorem RuleContext.countOption_cases (ctx : RuleContext) (key : String) (fallback : Nat) :
    (∃ n, ctx.countOption key fallback = .ok n) ∨
      ∃ message, ctx.countOption key fallback = .error (.invalidOption key message) := by
  have hread : (∃ n, ctx.natOption key fallback = .ok n) ∨
      ∃ message, ctx.natOption key fallback = .error (.invalidOption key message) :=
    ctx.option_cases key fallback _ _
  rcases hread with ⟨n, hn⟩ | ⟨message, hmessage⟩
  · have hcount : ctx.countOption key fallback = if n < UInt32.size then .ok n else
        .error (.invalidOption key "value is too large") := by rw [countOption, hn]; rfl
    rw [hcount]
    split
    · exact .inl ⟨n, rfl⟩
    · exact .inr ⟨_, rfl⟩
  · exact .inr ⟨message, by rw [countOption, hmessage]; rfl⟩

namespace ActiveRule

variable {rule : ActiveRule Id} {parser : Parser Id} {source fixed : Text} {root : Node}
variable {found rest : List Diagnostic} {plan : EditPlan}

theorem run_lint (hroot : parser source = .ok root)
    (hcheck : Id.run (rule.check (.ofTree "<idempotency>" source root)).run = .ok found) :
    Id.run (rule.lint parser source).run = .ok found := by
  have hparsed : Id.run (Snapshot.ofSource parser "<idempotency>" source) =
      .ok (.ofTree "<idempotency>" source root) := by
    rw [Snapshot.ofSource, hroot]
    rfl
  refine run_bind_of_run (congrArg Except.ok hparsed) ?_
  exact run_bind_of_run (congrArg Except.ok hcheck) rfl

/-- The answer hangs on how many fixable diagnostics the second lint finds. -/
theorem run_fixOnce (hfound : Id.run (rule.lint parser source).run = .ok found)
    (hplan : EditPlan.prepareStrictly source (found.flatMap (·.edits)) = .ok plan)
    (hfixed : plan.applyTo? source = some fixed)
    (hrest : Id.run (rule.lint parser fixed).run = .ok rest) :
    Id.run (rule.fixOnce parser source).run =
      if 0 < rest.countP (·.isFixable) then .error (.remaining (rest.countP (·.isFixable)) fixed)
      else .ok fixed := by
  have hfixed : plan.applyTo source = fixed := by rw [EditPlan.applyTo, hfixed, Option.getD_some]
  refine run_bind_of_run hfound ?_
  rw [hplan]
  dsimp only
  rw [hfixed]
  refine run_bind_of_run hrest ?_
  split
  · rfl
  · rfl

/-- The rule never turns down its options. -/
def Accepts (rule : ActiveRule Id) : Prop :=
  ∀ snapshot option message,
    Id.run (rule.check snapshot).run ≠ .error (.invalidOption option message)

/-- A rule that fails where it cannot read a count reads the same one wherever it accepts its
options. -/
theorem Accepts.exists_countOption (h : rule.Accepts) {key : String} {fallback : Nat}
    (hfails : ∀ ctx error, ctx.countOption key fallback = .error error →
      Id.run (rule.rule.check ctx).run = .error error) :
    ∃ n, ∀ snapshot, (rule.context snapshot).countOption key fallback = .ok n := by
  let snapshot : Snapshot := .ofTree "" [] default
  rcases (rule.context snapshot).countOption_cases key fallback with ⟨n, hn⟩ | ⟨message, hmessage⟩
  · exact ⟨n, fun _ => hn⟩
  · exact absurd (hfails _ _ hmessage) (h snapshot key message)

/-- In prose, the fix of the rule makes `fixed` of `source`, and of `fixed` the rule reports nothing. -/
structure Settles (rule : ActiveRule Id) (source fixed : Text) : Prop where
  fixes : ∀ root : Node, root.IsProse → ∃ found plan,
    Id.run (rule.check (.ofTree "<idempotency>" source root)).run = .ok found ∧
      EditPlan.prepareStrictly source (found.flatMap (·.edits)) = .ok plan ∧
      plan.applyTo? source = some fixed
  rests : ∀ root : Node, root.IsProse →
    Id.run (rule.check (.ofTree "<idempotency>" fixed root)).run = .ok []

/-- For a rule that reports what `found` says, it is enough to look at the lines of the two texts. -/
theorem Settles.of_lines (found : RuleContext → List Diagnostic)
    (hrun : ∀ snapshot text, (rule.context snapshot).Views text →
      Id.run (rule.check snapshot).run = .ok (found (rule.context snapshot)))
    (hfixes : ∀ ctx, ctx.Views source → ctx.snapshot.lines = Line.ofText source →
      ∃ plan, EditPlan.prepareStrictly source ((found ctx).flatMap (·.edits)) = .ok plan ∧
        plan.applyTo? source = some fixed)
    (hrests : ∀ ctx, ctx.Views fixed → ctx.snapshot.lines = Line.ofText fixed → found ctx = []) :
    rule.Settles source fixed where
  fixes root hprose := by
    obtain ⟨plan, hplan, happly⟩ := hfixes (rule.context (.ofTree "<idempotency>" source root))
      ⟨"<idempotency>", root, rfl⟩ (Snapshot.lines_ofTree hprose _ source)
    exact ⟨_, plan, hrun (.ofTree "<idempotency>" source root) source ⟨_, root, rfl⟩, hplan, happly⟩
  rests root hprose := by
    have hnone := hrests (rule.context (.ofTree "<idempotency>" fixed root))
      ⟨"<idempotency>", root, rfl⟩ (Snapshot.lines_ofTree hprose _ fixed)
    rw [hrun (.ofTree "<idempotency>" fixed root) fixed ⟨_, root, rfl⟩, hnone]

theorem Settles.run_fixOnce (h : rule.Settles source fixed) (hroot : parser source = .ok root)
    (hprose : root.IsProse) {root' : Node} (hroot' : parser fixed = .ok root')
    (hprose' : root'.IsProse) : Id.run (rule.fixOnce parser source).run = .ok fixed := by
  obtain ⟨found, plan, hcheck, hplan, hfixed⟩ := h.fixes root hprose
  exact ActiveRule.run_fixOnce (run_lint hroot hcheck) hplan hfixed
    (run_lint hroot' (h.rests root' hprose'))

end ActiveRule
end Tidymark
