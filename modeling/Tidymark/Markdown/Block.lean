import Tidymark.Markdown.Cell
import Tidymark.Span

/-! # Blocks

What the rows of a document are made of. Prose is kept as the cells of its lines, to be read when
all definitions of the document are known. -/
namespace Tidymark.Markdown

structure TableCell where
  span : Span
  text : List Cell
  deriving Repr

structure TableRow where
  span : Span
  cells : List TableCell
  deriving Repr

inductive Block where
  /-- A line without text. -/
  | blank
  /-- Lines of text that follow each other: definitions first, then a paragraph. -/
  | content (rows : List Row)
  /-- A line of `=` or `-` that may underline the text before it. -/
  | underline (depth : Nat) (row : Row)
  | heading (depth : Nat) (span : Span) (text : List Cell)
  | rule (span : Span)
  /-- A code block; `info` is the word that follows its opening fence. -/
  | code (span : Span) (info : Option (List Cell)) (value : Text)
  | html (span : Span) (value : Text)
  | table (span : Span) (rows : List TableRow)
  /-- A quote; `bare` tells that nothing follows the marker on its last line. -/
  | quote (span : Span) (bare : Bool) (children : List Block)
  | item (span : Span) (marker : Char) (number : Option Nat) (children : List Block)
  | footnote (span : Span) (label : Text) (children : List Block)
  deriving Repr

end Tidymark.Markdown
