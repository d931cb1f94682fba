import Tidymark.CommandLine

/-! # Reading the command line

An argument is an operand, a long option such as `--format`, or some short options such as `-vf`.
The value of an option is attached to it or is the next argument. Behind `--` everything is an
operand. The first fault decides, and so does the first request for help. -/
namespace Tidymark.CommandLine

/-- What an option sets. -/
inductive Flag where
  | config | verbose | help | version
  | format | fix | dryRun | jobs | noBackup | maxPasses | timeout | enable | disable
  | force
  deriving DecidableEq, Repr

structure Opt where
  flag : Flag
  long : String
  short : Option Char := none
  /-- Which values the option takes; `none` if it takes no value. -/
  accepts : Option (String → Bool) := none
  /-- Whether the option may be given again. -/
  repeatable : Bool := false

/-- A whole number in decimal digits, perhaps behind a plus sign. -/
def wholeNumber? (s : String) : Option Nat :=
  let digits :=
    match s.toList with
    | '+' :: rest => rest
    | chars => chars
  if digits.isEmpty || !digits.all Char.isDigit then none
  else some (digits.foldl (fun n c => 10 * n + (c.toNat - '0'.toNat)) 0)

/-- Whether a value is a whole number from one up to a maximum. -/
def isCount (maximum : Nat) (s : String) : Bool :=
  match wholeNumber? s with
  | some n => 1 ≤ n && n ≤ maximum
  | none => false

/-- The options of every level. -/
def common : List Opt :=
  [{ flag := .config, long := "config", short := some 'c', accepts := some (· != "") },
    { flag := .verbose, long := "verbose", short := some 'v' },
    { flag := .help, long := "help", short := some 'h' }]

/-- The options in front of a task. -/
def atTop : List Opt := common ++ [{ flag := .version, long := "version", short := some 'V' }]

/-- The options of the task `check`. -/
def ofCheck : List Opt :=
  common ++
  [{ flag := .format, long := "format", short := some 'f'
     accepts := some fun s => (ReportFormat.ofName? s).isSome },
    { flag := .fix, long := "fix" },
    { flag := .dryRun, long := "dry-run" },
    { flag := .jobs, long := "jobs", short := some 'j'
      accepts := some (isCount (Nat.pow 2 32 - 1)) },
    { flag := .noBackup, long := "no-backup" },
    { flag := .maxPasses, long := "max-passes", accepts := some (isCount 100) },
    { flag := .timeout, long := "timeout", accepts := some (isCount (Nat.pow 2 64 - 1)) },
    { flag := .enable, long := "enable", accepts := some fun _ => true, repeatable := true },
    { flag := .disable, long := "disable", accepts := some fun _ => true, repeatable := true }]

/-- The options of the task `init`. -/
def ofInit : List Opt := common ++ [{ flag := .force, long := "force" }]

/-- The options that were given, the latest first, each with its value. -/
abbrev Given := List (Flag × String)

namespace Given

def has (g : Given) (flag : Flag) : Bool := g.any (·.1 == flag)

/-- The values of an option in the order of the command line. -/
def values (g : Given) (flag : Flag) : List String :=
  (g.filter (·.1 == flag)).reverse.map (·.2)

def value? (g : Given) (flag : Flag) : Option String := (g.values flag).head?

def number? (g : Given) (flag : Flag) : Option Nat := (g.value? flag).bind wholeNumber?

/-- Takes in an option. -/
def add (g : Given) (opt : Opt) (value : String) : Except Refusal Given :=
  if g.has opt.flag && !opt.repeatable then .error (.misuse (.repeated opt.long))
  else if opt.accepts.any (fun accepts => !accepts value) then
    .error (.misuse (.badValue opt.long value))
  else if opt.flag == .help then .error .help
  else if opt.flag == .version then .error .version
  else .ok ((opt.flag, value) :: g)

end Given

/-- What an argument leads to: the options so far, and the one that takes the next argument as its
value. -/
structure Step where
  given : Given
  waiting : Option Opt

/-- Reads short options behind their dash. -/
def readShort (options : List Opt) (g : Given) : List Char → Except Refusal Step
  | [] => .ok ⟨g, none⟩
  | c :: rest =>
    match options.find? (·.short == some c) with
    | none => .error (.misuse (.unexpectedArgument ("-" ++ c.toString)))
    | some opt =>
      if opt.accepts.isNone then do
        let g ← g.add opt ""
        readShort options g rest
      else
        match rest with
        | [] => .ok ⟨g, some opt⟩
        | '=' :: value => do return ⟨← g.add opt (String.ofList value), none⟩
        | value => do return ⟨← g.add opt (String.ofList value), none⟩

/-- Reads a long option behind its dashes. -/
def readLong (options : List Opt) (g : Given) (body : List Char) : Except Refusal Step := do
  let name := String.ofList (body.takeWhile (· != '='))
  let attached :=
    match body.dropWhile (· != '=') with
    | [] => none
    | _ :: value => some (String.ofList value)
  match options.find? (·.long == name), attached with
  | none, _ => throw (.misuse (.unexpectedArgument ("--" ++ name)))
  | some opt, none =>
    if opt.accepts.isSome then return ⟨g, some opt⟩ else return ⟨← g.add opt "", none⟩
  | some opt, some value =>
    if opt.accepts.isSome then return ⟨← g.add opt value, none⟩
    else throw (.misuse (.unexpectedValue name))

/-- Whether an argument is an option or the end of the options. A dash alone is an operand. -/
def isOption (argument : List Char) : Bool := argument.head? == some '-' && 2 ≤ argument.length

/-- Reads the options up to an argument that is none: the options, and what follows them. With
`--` in front, the rest holds nothing but operands. -/
def readOptions (options : List Opt) (waiting : Option Opt) (g : Given) :
    List String → Except Refusal (Given × List String)
  | [] =>
    match waiting with
    | some opt => .error (.misuse (.missingValue opt.long))
    | none => .ok (g, [])
  | argument :: rest =>
    if isOption argument.toList then
      match waiting with
      | some opt => .error (.misuse (.missingValue opt.long))
      | none =>
        match argument.toList with
        | '-' :: '-' :: [] => .ok (g, argument :: rest)
        | '-' :: '-' :: body => do
          let step ← readLong options g body
          readOptions options step.waiting step.given rest
        | body => do
          let step ← readShort options g (body.drop 1)
          readOptions options step.waiting step.given rest
    else
      match waiting with
      | some opt => do
        let g ← g.add opt argument
        readOptions options none g rest
      | none => .ok (g, argument :: rest)

/-- Reads options and operands in any order; `fuel` bounds the number of operands. -/
def readAll (options : List Opt) : Nat → Given → List String →
    Except Refusal (Given × List String)
  | 0, g, _ => .ok (g, [])
  | fuel + 1, g, arguments => do
    let (g, rest) ← readOptions options none g arguments
    match rest with
    | [] => return (g, [])
    | "--" :: operands => return (g, operands)
    | operand :: rest =>
      let (g, operands) ← readAll options fuel g rest
      return (g, operand :: operands)

/-- Reads a level of the command line that ends with the arguments. -/
def readLevel (options : List Opt) (arguments : List String) :
    Except Refusal (Given × List String) :=
  readAll options (arguments.length + 1) [] arguments

/-- Refuses operands where there is no place for them. -/
def requireNone : List String → Except Refusal Unit
  | [] => .ok ()
  | operand :: _ => .error (.misuse (.unexpectedArgument operand))

def overrides (g : Given) : Overrides where
  fix := g.has .fix
  dryRun := g.has .dryRun
  noBackup := g.has .noBackup
  jobs := g.number? .jobs
  maxPasses := g.number? .maxPasses
  timeout := g.number? .timeout
  enabled := g.values .enable
  disabled := g.values .disable

/-- Reads what stands behind the name of a task. -/
def readTask (name : String) (arguments : List String) : Except Refusal (Task × Given) := do
  match name with
  | "check" =>
    let (g, patterns) ← readLevel ofCheck arguments
    if patterns.isEmpty then throw (.misuse .missingPatterns)
    if g.has .dryRun && !g.has .fix then throw (.misuse .dryRunWithoutFix)
    let format := ((g.value? .format).bind ReportFormat.ofName?).getD .text
    return (.check patterns format (overrides g), g)
  | "rules" =>
    let (g, operands) ← readLevel common arguments
    requireNone operands
    return (.rules, g)
  | "init" =>
    let (g, operands) ← readLevel ofInit arguments
    requireNone operands
    return (.init (g.has .force), g)
  | _ => throw (.misuse (.unknownTask name))

def taskNames : List String := ["check", "rules", "init", "help"]

/-- A request for help, perhaps with a task. -/
def readHelp : List String → Refusal
  | [] => .help
  | [name] => if taskNames.contains name then .help else .misuse (.unknownTask name)
  | _ :: extra :: _ => .misuse (.unknownTask extra)

/-- Reads the arguments of the program. An option behind the name of the task wins over the same
option in front of it. -/
def read (arguments : List String) : Except Refusal Invocation := do
  let (outer, rest) ← readOptions atTop none [] arguments
  match rest with
  | [] => throw (.misuse .missingTask)
  | "--" :: operands =>
    throw (.misuse ((operands.head?.map UsageError.unexpectedArgument).getD .missingTask))
  | "help" :: arguments => throw (readHelp arguments)
  | name :: arguments =>
    let (task, inner) ← readTask name arguments
    return ⟨task, (inner.value? .config).or (outer.value? .config),
      inner.has .verbose || outer.has .verbose⟩

end Tidymark.CommandLine
