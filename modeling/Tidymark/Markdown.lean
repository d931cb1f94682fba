import Tidymark.Markdown.Assembly

/-! # Markdown

Reads a document: headings, lists, quotes, code, HTML, tables, footnotes, emphasis and links, with
an optional block of metadata at the start. Every text is a document. -/
namespace Tidymark.Markdown

/-- The fence of front matter: three dashes or three plus signs on a line of their own. -/
def frontMatterMarker? (row : Row) : Option Char := do
  let marker ← Cells.headChar? row.cells
  if (marker == '-' || marker == '+') && Scan.count marker row.cells = 3 &&
      Cells.allBlank (row.cells.drop 3) then
    some marker
  else none

/-- The lines up to the closing fence, that fence, and the lines behind it. -/
def splitAtFence (marker : Char) : List Row → Option (List Row × Row × List Row)
  | [] => none
  | row :: rows =>
    if frontMatterMarker? row == some marker then some ([], row, rows)
    else (splitAtFence marker rows).map fun (inside, found) => (row :: inside, found)

/-- Front matter at the start of a document, and the lines behind it. -/
def frontMatter? : List Row → Option (Part × List Row)
  | [] => none
  | row :: rows => do
    let marker ← frontMatterMarker? row
    let ending ← row.ending
    let (inside, fence, rest) ← splitAtFence marker rows
    let value := ending.raw ++
      inside.flatMap fun r => Cells.raw r.cells ++ (r.ending.map (·.raw)).getD []
    let value := Line.trimEndings value
    let kind : PartKind := if marker == '-' then .yaml value else .toml value
    some (.leaf kind ⟨Cells.start row.stop row.cells, fence.stop⟩, rest)

/-- The parts of a document. -/
def document (source : Text) : Part :=
  let rows := rowsOf source
  let (front, rows) :=
    match frontMatter? rows with
    | some (part, rest) => ([part], rest)
    | none => ([], rows)
  let blocks := Outline.ofRows rows
  let (definitions, footnotes) := labelsAll source blocks
  let s : Surroundings := { source, definitions, footnotes, inTable := false }
  let all := (assembleAll s ⟨false, [], none, none⟩ blocks).settle s
  .branch .root ⟨0, source.size⟩ (front ++ all.parts.reverse)

end Tidymark.Markdown
