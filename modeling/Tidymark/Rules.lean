import Tidymark.Registry
import Tidymark.Rules.BlankRuns
import Tidymark.Rules.FinalNewline
import Tidymark.Rules.FirstHeading
import Tidymark.Rules.HardTabs
import Tidymark.Rules.HashGap
import Tidymark.Rules.HashSpace
import Tidymark.Rules.HeadingBlanks
import Tidymark.Rules.HeadingIndent
import Tidymark.Rules.HeadingPunctuation
import Tidymark.Rules.TrailingSpaces

/-! # The rules of this library -/
namespace Tidymark.Rules

variable {m : Type → Type} [Monad m] [MonadCancel m]

def all : List (Rule m) :=
  [TrailingSpaces.rule, HardTabs.rule, BlankRuns.rule, HashSpace.rule, HashGap.rule,
    HeadingBlanks.rule, HeadingIndent.rule, HeadingPunctuation.rule, FirstHeading.rule,
    FinalNewline.rule]

def registry : Registry m := .ofList all

end Tidymark.Rules
