import Tidymark.Cancel
import Tidymark.CommandLine
import Tidymark.CommandLine.Reader
import Tidymark.CommandLine.Run
import Tidymark.Config
import Tidymark.Config.File
import Tidymark.Config.Override
import Tidymark.Config.Reader
import Tidymark.Config.Schema
import Tidymark.Diagnostic
import Tidymark.Diagnostic.Json
import Tidymark.Dictionary
import Tidymark.Discovery
import Tidymark.Disk
import Tidymark.Edit
import Tidymark.Edit.Plan
import Tidymark.Error
import Tidymark.Files
import Tidymark.Glob
import Tidymark.Idempotency
import Tidymark.Json
import Tidymark.Json.Binary64
import Tidymark.Json.Printer
import Tidymark.Json.Reader
import Tidymark.Json.Token
import Tidymark.Line
import Tidymark.Linter
import Tidymark.Main
import Tidymark.Markdown
import Tidymark.Markdown.Assembly
import Tidymark.Markdown.Block
import Tidymark.Markdown.Cell
import Tidymark.Markdown.Container
import Tidymark.Markdown.Definition
import Tidymark.Markdown.Entity
import Tidymark.Markdown.EntityTable
import Tidymark.Markdown.Leaf
import Tidymark.Markdown.Line.Fence
import Tidymark.Markdown.Line.Heading
import Tidymark.Markdown.Line.Html
import Tidymark.Markdown.Line.Table
import Tidymark.Markdown.Outline
import Tidymark.Markdown.Part
import Tidymark.Markdown.Phrase
import Tidymark.Markdown.Phrase.Autolink
import Tidymark.Markdown.Phrase.Emphasis
import Tidymark.Markdown.Phrase.Html
import Tidymark.Markdown.Phrase.Lines
import Tidymark.Markdown.Phrase.Parts
import Tidymark.Markdown.Phrase.Read
import Tidymark.Markdown.Reference
import Tidymark.Markdown.Scan
import Tidymark.Markdown.Tag
import Tidymark.Parser
import Tidymark.Path
import Tidymark.Pipeline
import Tidymark.Proofs.Answer
import Tidymark.Proofs.Config.Override
import Tidymark.Proofs.Config.Resolution
import Tidymark.Proofs.Config.Setting
import Tidymark.Proofs.Diagnostic.Order
import Tidymark.Proofs.Diagnostic.Repeats
import Tidymark.Proofs.Dictionary
import Tidymark.Proofs.Disk.Place
import Tidymark.Proofs.Disk.Put
import Tidymark.Proofs.Edit.Account
import Tidymark.Proofs.Edit.Agreement
import Tidymark.Proofs.Edit.Application
import Tidymark.Proofs.Edit.Harmless
import Tidymark.Proofs.Edit.Intake
import Tidymark.Proofs.Edit.Plan
import Tidymark.Proofs.Line.Position
import Tidymark.Proofs.Line.Tiling
import Tidymark.Proofs.Pipeline.Cancellation
import Tidymark.Proofs.Pipeline.Convergence
import Tidymark.Proofs.Pipeline.Failures
import Tidymark.Proofs.Pipeline.Hoist
import Tidymark.Proofs.Pipeline.Pass
import Tidymark.Proofs.Pipeline.Report
import Tidymark.Proofs.Pipeline.Selection
import Tidymark.Proofs.Pipeline.Stability
import Tidymark.Proofs.Pipeline.Validity
import Tidymark.Proofs.Pipeline.Verbatim
import Tidymark.Proofs.Pipeline.Visible
import Tidymark.Proofs.Registry
import Tidymark.Proofs.Repetition
import Tidymark.Proofs.Rule.Harmless
import Tidymark.Proofs.Rule.Proposals
import Tidymark.Proofs.Rule.Steps
import Tidymark.Proofs.Rules.Headings
import Tidymark.Proofs.Rules.Lines
import Tidymark.Proofs.Rules.Proposals
import Tidymark.Proofs.Rules.Sparing
import Tidymark.Proofs.Run.Schedule
import Tidymark.Proofs.Text.Cut
import Tidymark.Proofs.Text.Visible
import Tidymark.Proofs.WriteBack.AllOrNothing
import Tidymark.Proofs.WriteBack.Cancellation
import Tidymark.Proofs.WriteBack.Locality
import Tidymark.Proofs.WriteBack.Steps
import Tidymark.Registry
import Tidymark.Report.Json
import Tidymark.Report.Text
import Tidymark.Rule
import Tidymark.Rules
import Tidymark.Rules.BlankRuns
import Tidymark.Rules.FinalNewline
import Tidymark.Rules.FirstHeading
import Tidymark.Rules.HardTabs
import Tidymark.Rules.HashGap
import Tidymark.Rules.HashSpace
import Tidymark.Rules.HeadingBlanks
import Tidymark.Rules.HeadingIndent
import Tidymark.Rules.HeadingPunctuation
import Tidymark.Rules.TrailingSpaces
import Tidymark.Run
import Tidymark.Snapshot
import Tidymark.Span
import Tidymark.Text
import Tidymark.Text.CaseFold
import Tidymark.Text.Printable
import Tidymark.Text.Punctuation
import Tidymark.Text.Quoted
import Tidymark.Text.Utf8
import Tidymark.Text.Whitespace
import Tidymark.Tree
import Tidymark.Tree.Walk
import Tidymark.WriteBack
import Tidymark.Proofs.Pipeline.Idempotency
import Tidymark.Proofs.Discovery
import Tidymark.Proofs.Pipeline.Code
import Tidymark.Proofs.Edit.Strictness
import Tidymark.Proofs.Edit.Order
import Tidymark.Proofs.Edit.Bundle
import Tidymark.Proofs.Pipeline.Cap
import Tidymark.Proofs.Edit.Linewise
import Tidymark.Proofs.Line.Pieces
import Tidymark.Proofs.Rule.Fixing
import Tidymark.Proofs.Tree.Prose
import Tidymark.Proofs.Text.Trim
import Tidymark.Proofs.Rules.HeadingEnds
import Tidymark.Proofs.Rules.HeadingReference
import Tidymark.Proofs.Rules.LineEnds
import Tidymark.Proofs.Rules.TabExpansion
import Tidymark.Proofs.Line.Neighbours
import Tidymark.Proofs.Rules.BlankThinning
import Tidymark.Proofs.Rules.HashSpacing
import Tidymark.Proofs.Rules.HeadingGaps
import Tidymark.Proofs.Rules.LastNewline
import Tidymark.Proofs.Rules.LineStripping
import Tidymark.Proofs.Rules.SecondLook
import Tidymark.Proofs.Line.Counting
import Tidymark.Proofs.Tree.Outlook
import Tidymark.Proofs.Rule.Access
import Tidymark.Proofs.Rules.InRange
import Tidymark.Proofs.Markdown.Spelling
import Tidymark.Proofs.Markdown.Style
import Tidymark.Proofs.Markdown.Taking
import Tidymark.Proofs.Markdown.Placed
import Tidymark.Proofs.Markdown.Reading
import Tidymark.Proofs.Markdown.Document
import Tidymark.Proofs.Markdown.Phrases
import Tidymark.Proofs.Markdown.Parts
import Tidymark.Proofs.Markdown.Conversion
import Tidymark.Proofs.Config.RoundTrip
import Tidymark.Proofs.Discovery.Exclusion
import Tidymark.Proofs.Tree.Traversal
import Tidymark.Proofs.Line.Borders
import Tidymark.Proofs.Line.Words
