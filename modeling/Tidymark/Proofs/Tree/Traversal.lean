import Mathlib.Data.List.Basic
import Tidymark.Proofs.Tree.Outlook

/-! # What a walk logs

A walk enters each node, calls the one hook of its kind and exits it again behind what is below. All
its steps but the end of it are told by the tree and by the hooks that do not go on to the children:
a walk that may be ended does these steps one by one, and nothing more once it is ended. -/
namespace Tidymark

mutual

/-- The steps of a walk that goes through to its end and stays out of the nodes of the hooks in
`skip`. -/
def Node.steps (skip : List Hook) : Node → List WalkStep
  | .mk kind span children value data =>
    let node := Node.mk kind span children value data
    let below := if skip.contains (Hook.ofKind kind) then [] else Node.stepsAll skip children
    .enter node :: .visit (Hook.ofKind kind) node :: (below ++ [.exit node])

def Node.stepsAll (skip : List Hook) : List Node → List WalkStep
  | [] => []
  | node :: rest => node.steps skip ++ Node.stepsAll skip rest

end

namespace WalkStep

/-- Steps that are properly nested: between the entry to a node and its exit are the hook of its
kind, called right on entry, and further nested steps. -/
inductive Nested : List WalkStep → Prop
  | nil : Nested []
  | node (n : Node) {inner rest : List WalkStep} (below : Nested inner) (behind : Nested rest) :
      Nested (.enter n :: .visit (Hook.ofKind n.kind) n :: (inner ++ .exit n :: rest))

/-- The entries of a log in order, each with the nodes that are open then, where those in `above`
are open before. -/
def entries (above : List Node) : List WalkStep → List Place
  | [] => []
  | .enter n :: log => ⟨n, above⟩ :: entries (n :: above) log
  | .visit _ _ :: log => entries above log
  | .exit _ :: log => entries above.tail log

def visit? : WalkStep → Option (Hook × Node)
  | .visit h n => some (h, n)
  | _ => none

def exit? : WalkStep → Option Node
  | .exit n => some n
  | _ => none

end WalkStep

/-- Whether the hook of the node's kind does not go on to the children. -/
def Node.skipped (skip : List Hook) (n : Node) : Bool := skip.contains (Hook.ofKind n.kind)

/-- Whether the place is not below a node of the hooks in `skip`. -/
def Place.reached (skip : List Hook) (p : Place) : Bool := p.above.all (!·.skipped skip)

/-- The places of a tree that a walk comes to, in source order. -/
def Node.reachedPlaces (skip : List Hook) (root : Node) : List Place :=
  (root.places []).filter (·.reached skip)

variable {skip : List Hook} {kind : StepKind} {n : Nat} {above : List Node}
variable {done steps more log : List WalkStep}

/-! ## The steps of a walk -/

mutual

/-- The visitor that logs does the steps of the walk one after the other. -/
theorem Visitor.walk_logging (skip : List Hook) (stop : Option Stop) (node : Node) :
    (Visitor.logging skip stop).walk node = (node.steps skip).forM (Logged.record stop) := by
  cases node with
  | mk kind span children value data =>
    have hbelow := walkAll_logging skip stop children
    rw [walk, Node.steps]
    simp only [logging, bind_assoc, pure_bind, List.forM_eq_forM, List.forM_cons, List.forM_append,
      List.forM_nil]
    refine congrArg _ (funext fun _ => congrArg _ (funext fun _ => ?_))
    cases skip.contains (Hook.ofKind kind) with
    | true => simp
    | false => simpa [logging] using congrArg (· >>= fun _ => Logged.record stop _) hbelow

theorem Visitor.walkAll_logging (skip : List Hook) (stop : Option Stop) (nodes : List Node) :
    (Visitor.logging skip stop).walkAll nodes =
      (Node.stepsAll skip nodes).forM (Logged.record stop) := by
  cases nodes with
  | nil => rfl
  | cons node rest =>
    rw [walkAll, walk_logging, walkAll_logging, Node.stepsAll]
    simp only [List.forM_eq_forM, List.forM_append]

end

namespace Logged

/-- Without a stop condition all steps are written down. -/
theorem run_forM_record (steps done : List WalkStep) :
    ((steps.forM (record none)).run).run done = (.ok (), steps.reverse ++ done) := by
  induction steps generalizing done with
  | nil => rfl
  | cons step steps ih =>
    rw [List.reverse_cons, List.append_assoc]
    exact ih (step :: done)

/-- Behind a step that does not end the walk follow the others. -/
theorem run_forM_cons_ok {stop : Option Stop} {step : WalkStep}
    (hstep : ((record stop step).run).run done = (.ok (), step :: done)) :
    (((step :: steps).forM (record stop)).run).run done =
      ((steps.forM (record stop)).run).run (step :: done) := by
  rw [List.forM_eq_forM, List.forM_cons, ExceptT.run_bind, StateT.run_bind, hstep]
  rfl

/-- Behind a step that ends the walk is nothing more. -/
theorem run_forM_cons_error {stop : Option Stop} {step : WalkStep}
    (hstep : ((record stop step).run).run done = (.error (), step :: done)) :
    (((step :: steps).forM (record stop)).run).run done = (.error (), step :: done) := by
  rw [List.forM_eq_forM, List.forM_cons, ExceptT.run_bind, StateT.run_bind, hstep]
  rfl

/-- A step ends the walk if it is the one that the stop condition counts up to. -/
theorem run_record (kind : StepKind) (n : Nat) (step : WalkStep) (done : List WalkStep) :
    ((record (some ⟨kind, n⟩) step).run).run done =
      (if step.kind = kind ∧ (step :: done).countP (·.kind == kind) = n then .error ()
        else .ok (), step :: done) := by
  have hended : (((if step.kind == kind && (step :: done).countP (·.kind == kind) == n then throw ()
      else pure () : Logged Unit)).run).run (step :: done) =
        (if step.kind = kind ∧ (step :: done).countP (·.kind == kind) = n then .error ()
          else .ok (), step :: done) := by
    simp only [Bool.and_eq_true, beq_iff_eq]
    split <;> rfl
  exact hended

/-- A walk ends with the step that its stop condition counts up to, or goes through if there are
fewer such steps. -/
theorem run_forM_record_some (steps : List WalkStep) (hdone : done.countP (·.kind == kind) ≤ n) :
    (∃ before step after, steps = before ++ step :: after ∧ step.kind = kind ∧
      done.countP (·.kind == kind) + before.countP (·.kind == kind) = n ∧
      ((steps.forM (record (some ⟨kind, n + 1⟩))).run).run done =
        (.error (), step :: before.reverse ++ done)) ∨
    (done.countP (·.kind == kind) + steps.countP (·.kind == kind) ≤ n ∧
      ((steps.forM (record (some ⟨kind, n + 1⟩))).run).run done =
        (.ok (), steps.reverse ++ done)) := by
  induction steps generalizing done with
  | nil => exact .inr ⟨by simpa using hdone, rfl⟩
  | cons step steps ih =>
    have hstep := run_record kind (n + 1) step done
    by_cases hlast : step.kind = kind ∧ (step :: done).countP (·.kind == kind) = n + 1
    · rw [if_pos hlast] at hstep
      obtain ⟨hkind, hcount⟩ := hlast
      refine .inl ⟨[], step, steps, rfl, hkind, ?_, ?_⟩
      · simpa [hkind] using hcount
      · exact run_forM_cons_error hstep
    · rw [if_neg hlast] at hstep
      have hmore : (step :: done).countP (·.kind == kind) ≤ n := by
        by_cases hkind : step.kind = kind
        · have hne : ¬(step :: done).countP (·.kind == kind) = n + 1 := fun h => hlast ⟨hkind, h⟩
          simp only [List.countP_cons, hkind, beq_self_eq_true, if_true] at hne ⊢
          omega
        · simpa [hkind] using hdone
      rw [run_forM_cons_ok hstep]
      rcases ih hmore with ⟨before, last, after, rfl, hkind, hcount, hrun⟩ | ⟨hcount, hrun⟩
      · refine .inl ⟨step :: before, last, after, rfl, hkind, ?_, ?_⟩
        · rw [List.countP_cons] at hcount ⊢
          omega
        · simpa using hrun
      · refine .inr ⟨?_, ?_⟩
        · rw [List.countP_cons] at hcount ⊢
          omega
        · simpa using hrun

end Logged

/-! ## The log of a walk -/

namespace WalkStep.Nested

theorem append (h : Nested log) (hmore : Nested more) : Nested (log ++ more) := by
  induction h with
  | nil => exact hmore
  | node n below _ _ ih =>
    have hnode := Nested.node n below ih
    simpa using hnode

/-- Behind nested steps the same nodes are open as before. -/
theorem entries_append (h : Nested log) (above : List Node) (more : List WalkStep) :
    WalkStep.entries above (log ++ more) =
      WalkStep.entries above log ++ WalkStep.entries above more := by
  induction h generalizing above more with
  | nil => rfl
  | node n _ _ ihbelow ihbehind =>
    simp only [List.cons_append, List.append_assoc, WalkStep.entries, ihbelow, ihbehind,
      List.tail_cons]

theorem visits_eq (h : Nested log) (above : List Node) : log.filterMap WalkStep.visit? =
    (WalkStep.entries above log).map fun p => (Hook.ofKind p.node.kind, p.node) := by
  induction h generalizing above with
  | nil => rfl
  | node n below _ ihbelow ihbehind =>
    simp only [WalkStep.entries, below.entries_append, List.tail_cons, List.map_cons,
      List.map_append, ← ihbelow, ← ihbehind]
    simp [List.filterMap_cons, WalkStep.visit?]

theorem exits_perm (h : Nested log) (above : List Node) : (log.filterMap WalkStep.exit?).Perm
    ((WalkStep.entries above log).map Place.node) := by
  induction h generalizing above with
  | nil => exact .nil
  | @node n inner rest below _ ihbelow ihbehind =>
    simp only [WalkStep.entries, below.entries_append, List.tail_cons, List.map_cons,
      List.map_append]
    have hexits : (WalkStep.enter n :: .visit (Hook.ofKind n.kind) n ::
        (inner ++ .exit n :: rest)).filterMap WalkStep.exit? =
          inner.filterMap WalkStep.exit? ++ n :: rest.filterMap WalkStep.exit? := by
      simp [List.filterMap_cons, WalkStep.exit?]
    rw [hexits]
    exact List.perm_middle.trans (((ihbelow (n :: above)).append (ihbehind above)).cons n)

end WalkStep.Nested

mutual

theorem Node.nested_steps (skip : List Hook) (node : Node) : WalkStep.Nested (node.steps skip) := by
  cases node with
  | mk kind span children value data =>
    rw [steps]
    refine .node (.mk kind span children value data) ?_ .nil
    split
    · exact .nil
    · exact nested_stepsAll skip children

theorem Node.nested_stepsAll (skip : List Hook) (nodes : List Node) :
    WalkStep.Nested (stepsAll skip nodes) := by
  cases nodes with
  | nil => exact .nil
  | cons node rest => exact (nested_steps skip node).append (nested_stepsAll skip rest)

end

mutual

/-- A walk enters the places that it comes to in the order of the tree, each with the nodes open
that it lies in. -/
theorem Node.entries_steps {above : List Node} (h : above.all (!·.skipped skip))
    (node : Node) : WalkStep.entries above (node.steps skip) =
      (node.places above).filter (·.reached skip) := by
  cases node with
  | mk kind span children value data =>
    have hplaces : ((Node.mk kind span children value data).places above).filter (·.reached skip) =
        ⟨.mk kind span children value data, above⟩ ::
          (placesAll (.mk kind span children value data :: above) children).filter
            (·.reached skip) :=
      List.filter_cons_of_pos h
    rw [hplaces, steps]
    simp only [WalkStep.entries]
    refine congrArg _ ?_
    cases hskip : skip.contains (Hook.ofKind kind) with
    | true =>
      have hshut : (Node.mk kind span children value data :: above).any (·.skipped skip) := by
        simp only [List.any_cons, skipped, Node.kind, hskip, Bool.true_or]
      exact (filter_placesAll_of_any hshut children).symm
    | false =>
      have hopen : (Node.mk kind span children value data :: above).all (!·.skipped skip) := by
        simp only [List.all_cons, skipped, Node.kind, hskip, Bool.not_false, Bool.true_and]
        exact h
      have hbelow := entries_stepsAll hopen children
      rw [if_neg Bool.false_ne_true, (nested_stepsAll skip children).entries_append, hbelow]
      exact List.append_nil _

theorem Node.entries_stepsAll {above : List Node}
    (h : above.all (!·.skipped skip)) (nodes : List Node) :
    WalkStep.entries above (stepsAll skip nodes) =
      (placesAll above nodes).filter (·.reached skip) := by
  cases nodes with
  | nil => rfl
  | cons node rest =>
    rw [stepsAll, placesAll, List.filter_append, (nested_steps skip node).entries_append,
      entries_steps h node, entries_stepsAll h rest]

end

theorem walkLog_none (skip : List Hook) (root : Node) :
    walkLog skip none root = (root.steps skip, false) := by
  rw [walkLog, Visitor.walk_logging, Logged.run_forM_record]
  simp only [List.append_nil, List.reverse_reverse]

/-- With a stop condition the log is that of the whole walk up to the step that the condition counts
up to. -/
theorem walkLog_some (skip : List Hook) (root : Node) (kind : StepKind) (n : Nat) :
    (∃ before step after, root.steps skip = before ++ step :: after ∧ step.kind = kind ∧
      before.countP (·.kind == kind) = n ∧
      walkLog skip (some ⟨kind, n + 1⟩) root = (before ++ [step], true)) ∨
    ((root.steps skip).countP (·.kind == kind) ≤ n ∧
      walkLog skip (some ⟨kind, n + 1⟩) root = (root.steps skip, false)) := by
  have hstart : ([] : List WalkStep).countP (·.kind == kind) ≤ n := Nat.zero_le n
  rw [walkLog, Visitor.walk_logging]
  rcases Logged.run_forM_record_some (root.steps skip) hstart with
    ⟨before, step, after, hsteps, hkind, hcount, hrun⟩ | ⟨hcount, hrun⟩
  · refine .inl ⟨before, step, after, hsteps, hkind, by simpa using hcount, ?_⟩
    rw [hrun]
    simp only [List.append_nil, List.reverse_cons, List.reverse_reverse]
  · refine .inr ⟨by simpa using hcount, ?_⟩
    rw [hrun]
    simp only [List.append_nil, List.reverse_reverse]

/-- A walk without a stop condition goes through to its end, and its log is properly nested: it
enters each place that is not below a node of the hooks in `skip` once, in source order and with the
nodes open that the place lies in, calls the one hook of the node's kind, and exits the node once.
With a stop condition the walk ends early behind the `n + 1`-st step of the kind and has done the
same steps up to there; it goes through if there are not so many. -/
theorem walkLog_traverses (skip : List Hook) (root : Node) :
    let log := (walkLog skip none root).1
    let places := root.reachedPlaces skip
    ((walkLog skip none root).2 = false ∧ WalkStep.Nested log ∧
      WalkStep.entries [] log = places ∧
      log.filterMap WalkStep.visit? = places.map (fun p => (Hook.ofKind p.node.kind, p.node)) ∧
      (log.filterMap WalkStep.exit?).Perm (places.map Place.node)) ∧
    ∀ kind n,
      (∃ before step after, log = before ++ step :: after ∧ step.kind = kind ∧
        before.countP (·.kind == kind) = n ∧
        walkLog skip (some ⟨kind, n + 1⟩) root = (before ++ [step], true)) ∨
      (log.countP (·.kind == kind) ≤ n ∧
        walkLog skip (some ⟨kind, n + 1⟩) root = (log, false)) := by
  intro log places
  have hlog : log = root.steps skip := congrArg Prod.fst (walkLog_none skip root)
  have hnested : WalkStep.Nested log := hlog ▸ root.nested_steps skip
  have hentries : WalkStep.entries [] log = places := by
    rw [hlog]
    exact Node.entries_steps rfl root
  have hvisits := hnested.visits_eq []
  have hexits := hnested.exits_perm []
  rw [hentries] at hvisits hexits
  refine ⟨⟨congrArg Prod.snd (walkLog_none skip root), hnested, hentries, hvisits, hexits⟩, ?_⟩
  rw [hlog]
  exact walkLog_some skip root

end Tidymark
