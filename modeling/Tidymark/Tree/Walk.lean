import Tidymark.Tree

/-! # Walking a tree

A visitor is told of each node three times: on entry, by the hook for the node's kind, and on
exit. The hook answers whether to go on to the children. A visitor in a monad with exceptions
ends the whole walk by throwing. -/
namespace Tidymark

/-- The kinds of node that visitors tell apart. -/
inductive Hook where
  | heading | code | inlineCode | frontMatter | html | text | other
  deriving DecidableEq, Repr

namespace Hook

def all : List Hook := [heading, code, inlineCode, frontMatter, html, text, other]

def name : Hook → String
  | heading => "heading"
  | code => "code"
  | inlineCode => "inline_code"
  | frontMatter => "front_matter"
  | html => "html"
  | text => "text"
  | other => "other"

def ofKind : NodeKind → Hook
  | .heading => heading
  | .code => code
  | .inlineCode => inlineCode
  | .frontMatter => frontMatter
  | .html => html
  | .text => text
  | _ => other

end Hook

structure Visitor (m : Type → Type) where
  enter : Node → m Unit
  /-- Answers whether the children of the node are walked. -/
  visit : Hook → Node → m Bool
  exit : Node → m Unit

variable {m : Type → Type} [Monad m]

mutual

/-- Visits a node and what is below it, in source order. -/
def Visitor.walk (v : Visitor m) : Node → m Unit
  | .mk kind span children value data => do
    let node := Node.mk kind span children value data
    v.enter node
    if ← v.visit (Hook.ofKind kind) node then v.walkAll children
    v.exit node

def Visitor.walkAll (v : Visitor m) : List Node → m Unit
  | [] => pure ()
  | node :: rest => do
    v.walk node
    v.walkAll rest

end

/-- One step of a walk, as a log of it shows it. -/
inductive WalkStep where
  | enter (node : Node)
  | visit (hook : Hook) (node : Node)
  | exit (node : Node)
  deriving Repr

/-- Which step of a walk a stop condition counts. -/
inductive StepKind where
  | enter | exit | hook (h : Hook)
  deriving DecidableEq, Repr

def WalkStep.kind : WalkStep → StepKind
  | enter _ => .enter
  | visit h _ => .hook h
  | exit _ => .exit

/-- Ends a walk at the `nth` step of a kind, counted from one. -/
structure Stop where
  kind : StepKind
  nth : Nat
  deriving DecidableEq, Repr

/-- A walk that writes down its steps, the latest first; the exception is an early end. -/
abbrev Logged := ExceptT Unit (StateM (List WalkStep))

/-- Writes a step down, then ends the walk if `stop` asks for it. -/
def Logged.record (stop : Option Stop) (step : WalkStep) : Logged Unit := do
  modify (step :: ·)
  match stop with
  | none => pure ()
  | some stop =>
    if step.kind == stop.kind && (← get).countP (·.kind == stop.kind) == stop.nth then
      throw ()

/-- The visitor that logs every step and does not go below the nodes of the hooks in `skip`. -/
def Visitor.logging (skip : List Hook) (stop : Option Stop) : Visitor Logged where
  enter n := Logged.record stop (.enter n)
  visit h n := do
    Logged.record stop (.visit h n)
    pure (!skip.contains h)
  exit n := Logged.record stop (.exit n)

/-- The steps of a walk over `root`, and whether `stop` ended it. -/
def walkLog (skip : List Hook) (stop : Option Stop) (root : Node) : List WalkStep × Bool :=
  match (((Visitor.logging skip stop).walk root).run).run [] with
  | (.ok (), log) => (log.reverse, false)
  | (.error (), log) => (log.reverse, true)

/-- The depths of the headings of a tree, in source order. -/
def headingDepths (root : Node) : List Nat :=
  let collector : Visitor (StateM (List Nat)) :=
    { enter := fun _ => pure ()
      visit := fun h n => do
        if h == .heading then modify (n.headingDepth?.toList ++ ·)
        pure true
      exit := fun _ => pure () }
  ((collector.walk root).run []).2.reverse

end Tidymark
