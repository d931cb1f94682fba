import Tidymark.Config.Override

/-! # The command line

What the program can be asked to do. Options stand in front of the name of a task or behind it. -/
namespace Tidymark

inductive ReportFormat where
  | text | json
  deriving DecidableEq, Repr

namespace ReportFormat

def name : ReportFormat → String
  | text => "text"
  | json => "json"

def ofName? (s : String) : Option ReportFormat := [text, json].find? (·.name == s)

end ReportFormat

inductive Task where
  /-- Looks for problems in what the patterns stand for, and perhaps fixes them. -/
  | check (patterns : List String) (format : ReportFormat) (overrides : Overrides)
  /-- Lists the rules. -/
  | rules
  /-- Writes a first configuration, also over an old one if `force` is set. -/
  | init (force : Bool)
  deriving Repr

structure Invocation where
  task : Task
  /-- The configuration file, if it is named. -/
  config : Option String
  verbose : Bool
  deriving Repr

inductive UsageError where
  | missingTask
  | unknownTask (name : String)
  | unexpectedArgument (argument : String)
  | missingValue (option : String)
  | unexpectedValue (option : String)
  | badValue (option value : String)
  /-- An option that may stand only once on its side of the task's name. -/
  | repeated (option : String)
  | missingPatterns
  | dryRunWithoutFix
  deriving DecidableEq, Repr

def UsageError.message : UsageError → String
  | missingTask => "a task is required"
  | unknownTask name => "there is no task '" ++ name ++ "'"
  | unexpectedArgument argument => "unexpected argument '" ++ argument ++ "'"
  | missingValue option => "option '" ++ option ++ "' requires a value"
  | unexpectedValue option => "option '" ++ option ++ "' takes no value"
  | badValue option value => "option '" ++ option ++ "' cannot be '" ++ value ++ "'"
  | repeated option => "option '" ++ option ++ "' is given twice"
  | missingPatterns => "a pattern is required"
  | dryRunWithoutFix => "option 'dry-run' requires option 'fix'"

/-- Why arguments stand for no task. -/
inductive Refusal where
  | help
  | version
  | misuse (error : UsageError)
  deriving DecidableEq, Repr

end Tidymark
