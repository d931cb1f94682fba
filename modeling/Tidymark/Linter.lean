import Tidymark.Discovery
import Tidymark.Registry
import Tidymark.Run

/-! # The linter

A configuration with the rules that it enables and the files that it is for. -/
namespace Tidymark

structure Linter (m : Type → Type) where
  config : Config
  rules : List (ActiveRule m)
  finder : Finder
  parser : Parser m

namespace Linter

variable {m : Type → Type}

/-- The linter for a configuration and the rules of a registry. -/
def ofConfig [Pure m] (config : Config) (registry : Registry m) : Except LintError (Linter m) := do
  let rules ← registry.resolve config
  let finder ← Finder.ofGlobs config.included config.excluded
  return ⟨config, rules, finder, Parser.markdown⟩

def pipeline (l : Linter m) : Pipeline m :=
  ⟨l.parser, l.rules, ⟨l.config.fix, l.config.maxPasses⟩⟩

def writeOptions (l : Linter m) : WriteOptions :=
  ⟨l.config.dryRun, l.config.backup, l.config.maxFileSize⟩

/-- A token with the deadline of the configuration. -/
def token (l : Linter m) (now : Time) : StateM Flags Token :=
  match l.config.timeout with
  | some seconds => Token.withTimeout now seconds
  | none => Token.new

variable [Monad m] [MonadCancel m]

def processSource (l : Linter m) (path : String) (source : Text) :
    ExceptT LintError m PipelineResult :=
  l.pipeline.runText path source

variable [MonadFiles m]

def discover (l : Linter m) (patterns : List String) (base : String) :
    ExceptT LintError m (List String) :=
  l.finder.discover patterns base

def processFile (l : Linter m) (path : String) : ExceptT LintError m PipelineResult :=
  Tidymark.processFile l.pipeline l.writeOptions path

def run (l : Linter m) (schedule : Schedule) (paths : List String) : m RunReport :=
  Runner.run ⟨l.pipeline, l.writeOptions⟩ schedule paths

end Linter
end Tidymark
