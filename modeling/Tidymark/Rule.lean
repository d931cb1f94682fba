import Tidymark.Cancel
import Tidymark.Diagnostic
import Tidymark.Json
import Tidymark.Snapshot

/-! # Rules

A rule looks at a snapshot and reports what it finds, or fails. The rules of this library look at
one thing after another, and before each they ask whether to stop. -/
namespace Tidymark

inductive RuleError where
  | cancelled
  | invalidOption (option message : String)
  | edit (error : EditError)
  /-- The rule broke down, for instance by looking behind the end of a text. -/
  | panicked (message : String)
  | failed (message : String)
  deriving DecidableEq, Repr

def RuleError.message : RuleError → String
  | cancelled => "cancelled"
  | invalidOption option message => "invalid option '" ++ option ++ "': " ++ message
  | edit error => error.message
  | panicked message => "rule panicked: " ++ message
  | failed message => message

/-- What is behind the first `n` bytes of a text; these have to end between characters. -/
def Text.dropBytes (text : Text) (n : Nat) : Except RuleError Text :=
  match text.drop? n with
  | some rest => .ok rest
  | none => .error (.panicked "byte index does not cut the text")

theorem Text.add_size_of_dropBytes {text rest : Text} {n : Nat}
    (h : text.dropBytes n = .ok rest) : n + rest.size = text.size := by
  unfold dropBytes at h
  split at h
  · rename_i hdrop
    obtain rfl := Except.ok.inj h
    exact add_size_of_drop? hdrop
  · cases h

/-- What a rule sees. -/
structure RuleContext where
  snapshot : Snapshot
  ruleId : String
  ruleName : String
  severity : Severity
  options : Json

namespace RuleContext

/-- A diagnostic of the rule, without a fix. -/
def report (ctx : RuleContext) (span : Span) (message : String) (edits : List Edit := []) :
    Diagnostic where
  ruleId := ctx.ruleId
  ruleName := ctx.ruleName
  span := span
  location := ctx.snapshot.location span
  message := message
  severity := ctx.severity
  suggestion := none
  edits := edits

/-- An option, which is `fallback` if it is missing or null. -/
def option (ctx : RuleContext) (key : String) (fallback : α) (read : Json → Option α)
    (expected : String) : Except RuleError α :=
  match ctx.options.get? key with
  | none | some .null => .ok fallback
  | some value =>
    match read value with
    | some a => .ok a
    | none => .error (.invalidOption key expected)

def natOption (ctx : RuleContext) (key : String) (fallback : Nat) : Except RuleError Nat :=
  ctx.option key fallback Json.asNat? "expected a non-negative integer"

/-- A natural number below 2 ^ 32. -/
def countOption (ctx : RuleContext) (key : String) (fallback : Nat) : Except RuleError Nat := do
  let n ← ctx.natOption key fallback
  if n < UInt32.size then .ok n else .error (.invalidOption key "value is too large")

def stringOption (ctx : RuleContext) (key fallback : String) : Except RuleError String :=
  ctx.option key fallback Json.asStr? "expected a string"

def boolOption (ctx : RuleContext) (key : String) (fallback : Bool) : Except RuleError Bool :=
  ctx.option key fallback Json.asBool? "expected a boolean"

/-- A line of the snapshot; there is no line behind the last. -/
def line (ctx : RuleContext) (i : Nat) : Except RuleError Line :=
  match ctx.snapshot.lines[i]? with
  | some line => .ok line
  | none => .error (.panicked "line index is out of range")

/-- A part of the source; its ends have to lie between characters, in order. -/
def slice (ctx : RuleContext) (start stop : Nat) : Except RuleError Text :=
  match ctx.snapshot.source.slice? start stop with
  | some text => .ok text
  | none => .error (.panicked "byte range does not cut the source")

/-- The text of a line, cut out of the source. -/
def lineText (ctx : RuleContext) (line : Line) : Except RuleError Text :=
  ctx.slice line.start line.newlineStart

end RuleContext

structure Rule (m : Type → Type) where
  id : String
  name : String
  description : String
  canFix : Bool
  enabledByDefault : Bool
  severity : Severity
  check : RuleContext → ExceptT RuleError m (List Diagnostic)

/-- A rule with the settings it runs under. -/
structure ActiveRule (m : Type → Type) where
  rule : Rule m
  severity : Severity
  options : Json
  /-- Whether its fixes may be applied. -/
  fix : Bool

namespace ActiveRule

variable {m : Type → Type}

def ofRule (rule : Rule m) : ActiveRule m := ⟨rule, rule.severity, Json.empty, true⟩

def id (r : ActiveRule m) : String := r.rule.id

def context (r : ActiveRule m) (snapshot : Snapshot) : RuleContext :=
  ⟨snapshot, r.rule.id, r.rule.name, r.severity, r.options⟩

def check (r : ActiveRule m) (snapshot : Snapshot) : ExceptT RuleError m (List Diagnostic) :=
  r.rule.check (r.context snapshot)

end ActiveRule

section
variable {m : Type → Type} [Monad m] [MonadCancel m]

/-- Stops the rule if the run is cancelled. -/
def poll : ExceptT RuleError m Unit := do
  if ← (MonadCancel.isCancelled : m Bool) then throw .cancelled

/-- The findings of all steps, asking before each whether to stop. -/
def runSteps : List (Except RuleError (List Diagnostic)) → ExceptT RuleError m (List Diagnostic)
  | [] => pure []
  | step :: rest => do
    poll
    let found ← step
    let others ← runSteps rest
    return found ++ others

/-- An enabled rule that looks at one thing after another. Its steps depend on nothing but the
context. -/
def Rule.ofSteps (id name description : String) (canFix : Bool)
    (steps : RuleContext → Except RuleError (List (Except RuleError (List Diagnostic)))) :
    Rule m where
  id := id
  name := name
  description := description
  canFix := canFix
  enabledByDefault := true
  severity := .error
  check ctx := do
    let steps ← steps ctx
    runSteps steps

end

end Tidymark
