import Tidymark.Edit

/-! # Edit plans

Many edits of one content are turned into a plan: edits that can all be applied at once. They are
taken in by the order of their ranges. An edit that repeats an accepted one is dropped, deletions
that overlap become one deletion, and any other edit that conflicts with an accepted one is
skipped. -/
namespace Tidymark

structure EditPlan where
  /-- What is applied, in order. -/
  accepted : List Edit
  /-- What conflicts with it. -/
  skipped : List Edit
  /-- How many edits became part of an accepted one. -/
  merged : Nat
  deriving DecidableEq, Repr

namespace EditPlan

/-- The edits taken in so far, the latest first. -/
structure Intake where
  accepted : List Edit
  skipped : List Edit
  merged : Nat

/-- Takes in an edit that starts no earlier than those before it. It can only overlap the latest
of them. -/
def Intake.add (i : Intake) (e : Edit) : Intake :=
  if (i.accepted.takeWhile (·.start == e.start)).contains e then
    { i with merged := i.merged + 1 }
  else match i.accepted with
    | [] => { i with accepted := [e] }
    | last :: rest =>
      if !last.conflicts e then { i with accepted := e :: last :: rest }
      else if last.isDeletion && e.isDeletion then
        ⟨⟨last.start, max last.stop e.stop, last.replacement⟩ :: rest, i.skipped, i.merged + 1⟩
      else { i with skipped := e :: i.skipped }

/-- The plan for edits that fit their content. -/
def ofEdits (edits : List Edit) : EditPlan :=
  let i := (edits.mergeSort Edit.atMost).foldl Intake.add ⟨[], [], 0⟩
  ⟨i.accepted.reverse, i.skipped.reverse, i.merged⟩

/-- The plan for `edits` on `content`; an edit that does not fit the content is an error. -/
def prepare (content : Text) (edits : List Edit) : Except EditError EditPlan :=
  match edits.findSome? (Edit.fault? content) with
  | some error => .error error
  | none => .ok (ofEdits edits)

/-- The plan for `edits` on `content`, if no edit has to be skipped. -/
def prepareStrictly (content : Text) (edits : List Edit) : Except EditError EditPlan := do
  let plan ← prepare content edits
  match plan.skipped with
  | [] => .ok plan
  | second :: _ =>
    .error (.conflict ((plan.accepted.find? (·.conflicts second)).getD second) second)

/-- Applies edits from left to right, copying what lies between them. -/
def applyFrom (content : Text) (cursor : Nat) : List Edit → Option Text
  | [] => content.drop? cursor
  | e :: rest => do
    let gap ← content.slice? cursor e.start
    let after ← applyFrom content e.stop rest
    return gap ++ e.replacement ++ after

/-- The content after the accepted edits, if they can be cut out of it. -/
def applyTo? (plan : EditPlan) (content : Text) : Option Text := applyFrom content 0 plan.accepted

/-- The content after the accepted edits. A plan that was prepared for the content always
applies to it. -/
def applyTo (plan : EditPlan) (content : Text) : Text := (plan.applyTo? content).getD content

def isEmpty (plan : EditPlan) : Bool := plan.accepted.isEmpty

end EditPlan
end Tidymark
