import Tidymark.CommandLine.Reader
import Tidymark.Config.File
import Tidymark.Linter
import Tidymark.Report.Json
import Tidymark.Report.Text
import Tidymark.Rules

/-! # Running the program

What the program prints, and its exit code: 0 if all is well, 1 if a check found errors, 2 if the
program could not do what it was asked for. -/
namespace Tidymark.CommandLine

structure Output where
  code : Nat
  stdout : String
  stderr : String
  deriving DecidableEq, Repr

/-- What the program prints when it cannot go on. -/
def Output.fatal (message : String) : Output := ⟨2, "", "error: " ++ message ++ "\n"⟩

def programName : String := "marklint"

def version : String := "0.1.0"

def usage : String :=
  "Usage: " ++ programName ++ " [OPTIONS] <COMMAND>\n\nCommands:\n" ++
  "  check PATTERNS...  Lint files, optionally fixing them\n" ++
  "  rules              List the built-in rules\n" ++
  "  init               Initialize configuration\n"

def Refusal.output : Refusal → Output
  | .help => ⟨0, usage, ""⟩
  | .version => ⟨0, programName ++ " " ++ version ++ "\n", ""⟩
  | .misuse error => .fatal error.message

/-- The configuration that `init` writes. -/
def firstConfig : String :=
  "\x7b
  \"$schema\": \"https://marklint.dev/schemas/v1/config.json\",
  // Rules are keyed by id or name: true | false | \"error\" | \"warning\" | \"info\" | \"off\" | \x7b ...options \x7d
  \"rules\": \x7b
    \"MD009\": \x7b \"br_spaces\": 2 \x7d,
    \"MD041\": \"warning\"
  \x7d,
  \"exclude\": [\"**/node_modules/**\"],
  \"backup\": true,
  \"max_passes\": 10
\x7d
"

variable {m : Type → Type} [Monad m] [MonadCancel m] [MonadFiles m]

/-- Steps that may end the program. -/
abbrev Attempt (m : Type → Type) : Type → Type := ExceptT String m

/-- A step that fails with an error of the library. -/
def attempt (step : ExceptT LintError m α) : Attempt m α := do
  match ← (step.run : m _) with
  | .ok a => return a
  | .error error => throw error.message

/-- The configuration that is named, or that of the working directory, or the default. -/
def loadConfig (path : Option String) : Attempt m Config := do
  match path with
  | some path => attempt (Config.ofFile path)
  | none =>
    match ← (Config.discover "." : m _) with
    | some path => attempt (Config.ofFile path)
    | none => return .default

/-- What `check` prints about a report. -/
def checkOutput (format : ReportFormat) (config : Config) (report : RunReport) : Output where
  code := if report.isFailure then 1 else 0
  stdout :=
    match format with
    | .json => (Report.json report).pretty ++ "\n"
    | .text =>
      Report.text report ++ if config.fix then Report.fixSummary report config.dryRun else ""
  stderr := Report.failureSummary report

/-- Checks files. Before it looks at the first it hands the time limit, if there is one, to
`limit`. -/
def check (limit : Nat → m Unit) (path : Option String) (patterns : List String)
    (format : ReportFormat) (overrides : Overrides) : Attempt m Output := do
  let config ← loadConfig path
  let registry : Registry m := Rules.registry
  let config ← (config.override registry overrides).mapError UnknownRule.message
  let linter ← (Linter.ofConfig config registry).mapError LintError.message
  let files ← attempt (linter.discover patterns ".")
  match config.timeout with
  | some seconds => (limit seconds : m _)
  | none => pure ()
  let report ← (linter.run (.inOrder files.length) files : m _)
  return checkOutput format config report

/-- A file system operation that fails with what the system says. -/
def fileAttempt (op : m (Except FileError Unit)) : Attempt m Unit := do
  match ← (op : m _) with
  | .ok () => return ()
  | .error error => throw error.reason

/-- Writes a first configuration. -/
def init (force : Bool) : Attempt m Output := do
  let path := ".marklint.jsonc"
  let bytes := Text.encode firstConfig.toList
  match ← (MonadFiles.create path bytes : m _) with
  | .ok () => pure ()
  | .error .alreadyThere =>
    if !force then throw "Config file already exists. Use --force to overwrite."
    fileAttempt (MonadFiles.remove path)
    fileAttempt (MonadFiles.create path bytes)
  | .error error => throw error.reason
  return ⟨0, "Created " ++ path ++ "\n", ""⟩

/-- Does what the program is asked for. -/
def run (limit : Nat → m Unit) (arguments : List String) : m Output := do
  match read arguments with
  | .error refusal => return Refusal.output refusal
  | .ok invocation =>
    let attempt : Attempt m Output :=
      match invocation.task with
      | .check patterns format overrides =>
        check limit invocation.config patterns format overrides
      | .rules => return ⟨0, Report.rules (Rules.registry : Registry m), ""⟩
      | .init force => init force
    match ← attempt.run with
    | .ok output => return output
    | .error message => return .fatal message

end Tidymark.CommandLine
