import Tidymark.Error
import Tidymark.Files
import Tidymark.Glob
import Tidymark.Path

/-! # Finding files

Which files a list of patterns stands for: a pattern names a file, or a directory whose Markdown
files are taken, or else it is a glob. Names that start with a dot are not entered. -/
namespace Tidymark

structure Finder where
  /-- What a file has to match, if there is anything. -/
  included : List Pattern
  /-- What a file may not match. -/
  excluded : List Pattern
  /-- The extensions of files taken from directories, in upper or lower case. -/
  extensions : List String

namespace Finder

def defaultExtensions : List String := ["md", "markdown"]

def ofGlobs (included excluded : List String) : Except LintError Finder := do
  let compile (globs : List String) : Except LintError (List Pattern) :=
    (Glob.parseAll globs).mapError fun e => .config ("Invalid glob pattern: " ++ e.message)
  let included ← compile included
  let excluded ← compile excluded
  return ⟨included, excluded, defaultExtensions⟩

def matchesAny (patterns : List Pattern) (path : String) : Bool :=
  let bytes := path.toList.flatMap String.utf8EncodeChar
  patterns.any (·.isMatch bytes)

/-- Whether a file is left out. -/
def ignores (f : Finder) (path : String) : Bool :=
  matchesAny f.excluded path || !f.included.isEmpty && !matchesAny f.included path

/-- Whether a file has one of the extensions. -/
def hasExtension (f : Finder) (path : String) : Bool :=
  (Path.extension? path).any fun e =>
    f.extensions.any fun known => known.toList.map Char.toLower == e.toList.map Char.toLower

def isVisible (name : String) : Bool := name.toList.head? != some '.'

/-- How a file is called that is found below `base`. -/
def outputPath (base path : String) : String :=
  if Path.same base "." || Path.isAbsolute path then path else Path.join base path

/-- The names of a file below a directory, as a path seen from `base`. -/
def relative (base root : String) (names : List String) : String :=
  let path := names.foldl Path.join root
  (Path.strip? base path).getD path

/-- Paths in order, each once. -/
def arrange (paths : List String) : List String :=
  (paths.mergeSort Path.atMost).eraseRepsBy Path.same

variable {m : Type → Type} [Monad m] [MonadFiles m]

/-- The visible files in a directory and below it, as paths seen from `base`. -/
def filesIn (base root : String) : m (List String) := do
  return (← MonadFiles.walk isVisible root).map (relative base root)

/-- What the patterns stand for that name files or directories, and the globs among them. -/
def expand (f : Finder) (base : String) :
    List String → ExceptT LintError m (List String × List Pattern)
  | [] => return ([], [])
  | pattern :: rest => do
    let resolved := Path.join base pattern
    if ← (isFile resolved : m Bool) then
      let (files, globs) ← expand f base rest
      return ((if f.ignores pattern then [] else [outputPath base pattern]) ++ files, globs)
    else if ← (isDirectory resolved : m Bool) then
      let found ← (filesIn base resolved : m _)
      let (files, globs) ← expand f base rest
      let found := found.filter fun path => f.hasExtension path && !f.ignores path
      return (found.map (outputPath base) ++ files, globs)
    else
      match Glob.parse pattern with
      | .error e =>
        throw (.config ("Invalid pattern '" ++ pattern ++ "': " ++ e.message))
      | .ok glob =>
        let (files, globs) ← expand f base rest
        return (files, glob :: globs)

/-- The files that the patterns stand for, seen from `base`, in order and each once. -/
def discover (f : Finder) (patterns : List String) (base : String) :
    ExceptT LintError m (List String) := do
  let (files, globs) ← f.expand base patterns
  if globs.isEmpty then return arrange files
  let all ← (filesIn base base : m _)
  let found := all.filter fun path => matchesAny globs path && !f.ignores path
  return arrange (files ++ found.map (outputPath base))

end Finder
end Tidymark
