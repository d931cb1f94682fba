import Tidymark.Proofs.Line.Counting
import Tidymark.Proofs.Rule.Cuts
import Tidymark.Proofs.Rule.Fixing
import Tidymark.Proofs.Rule.Proposals

/-! # Where rules look

A rule breaks down if it asks for a line that there is not, or cuts the source where there is no
border between characters. Where a tree puts its headings and its blocks on parts of the source, the
lines that rules are led to exist. Each finding is then about a part of the source, and is located
there. -/
namespace Tidymark

/-- The span is a part of the text that is not empty. -/
def Span.Covers (span : Span) (source : Text) : Prop :=
  span.start < span.stop ∧ source.isBoundary span.start = true ∧ source.isBoundary span.stop = true

instance (span : Span) (source : Text) : Decidable (span.Covers source) :=
  inferInstanceAs (Decidable (_ ∧ _))

/-- The tree puts its headings and the children of its root on parts of the source. No heading
starts inside of a line terminator, and none that is underlined ends on the line that it starts
on. -/
structure Snapshot.WellPlaced (s : Snapshot) : Prop where
  headings : ∀ h ∈ s.headings, h.span.Covers s.source
  children : ∀ node ∈ s.root.children, node.span.Covers s.source
  starts : ∀ h ∈ s.headings, ∀ line ∈ s.lines[h.line]?, h.span.start ≤ line.newlineStart
  underlines : ∀ h ∈ s.headings, h.setext = true → h.line < s.lineIndex (h.span.stop - 1)

/-- The line and the column of an offset, counted from one: the line feeds before it, and the bytes
behind the last of these. -/
def Text.positionOf (t : Text) (offset : Nat) : Position :=
  ⟨1 + t.feedsBefore offset, 1 + (t.sinceFeed offset).length⟩

/-- The diagnostic is about a part of the source, and its location is where this part is, cut to 32
bits. It is exact if the part stops before the largest offset. -/
structure RuleContext.Locates (ctx : RuleContext) (d : Diagnostic) : Prop where
  part : ∃ t, ctx.snapshot.source.slice? d.span.start d.span.stop = some t
  start : d.location.start = (ctx.snapshot.source.positionOf d.span.start).cut
  stop : d.location.stop = (ctx.snapshot.source.positionOf d.span.stop).cut
  exact : d.span.stop < sizeLimit → d.location =
    ⟨ctx.snapshot.source.positionOf d.span.start, ctx.snapshot.source.positionOf d.span.stop⟩

/-- A step of a rule that answers, with findings about parts of the source. -/
def RuleContext.Answers (ctx : RuleContext) (step : Except RuleError (List Diagnostic)) : Prop :=
  ∃ found, step = .ok found ∧ ∀ d ∈ found, ctx.Locates d

namespace Text

variable {t : Text} {i j : Nat}

/-- Before the largest offset the position of an offset fits into 32 bits. -/
theorem cut_positionOf (h : i < sizeLimit) : (t.positionOf i).cut = t.positionOf i := by
  have hlimit : sizeLimit = UInt32.size - 1 := rfl
  have hfeeds := t.feedsBefore_le i
  have hbytes := t.length_sinceFeed_le i
  have hline : (1 + t.feedsBefore i) % UInt32.size = 1 + t.feedsBefore i :=
    Nat.mod_eq_of_lt (by omega)
  have hcolumn : (1 + (t.sinceFeed i).length) % UInt32.size = 1 + (t.sinceFeed i).length :=
    Nat.mod_eq_of_lt (by omega)
  rw [positionOf, Position.cut, hline, hcolumn]

theorem le_size_of_isBoundary (h : t.isBoundary i = true) : i ≤ t.size := by
  obtain ⟨a, b, rfl, rfl⟩ := isBoundary_iff.mp h
  rw [size_append]
  omega

/-- A text can be cut at two borders between characters. -/
theorem exists_slice (hi : t.isBoundary i = true) (hj : t.isBoundary j = true) (hij : i ≤ j) :
    ∃ text, t.slice? i j = some text := by
  obtain ⟨a, b, rfl, rfl⟩ := isBoundary_iff.mp hi
  obtain ⟨c, d, hcut, rfl⟩ := isBoundary_iff.mp hj
  obtain ⟨e, rfl, rfl⟩ := exists_append_of_size_le hcut hij
  exact ⟨e, slice?_eq_some_iff.mpr ⟨a, d, by simp, rfl, by rw [size_append]⟩⟩

end Text

namespace RuleContext

variable {ctx : RuleContext} {source p q r : Text} {line : Line} {heading : Heading}
variable {start stop i : Nat}

theorem Views.isBoundary_start (hctx : ctx.Views source) (hline : line ∈ ctx.snapshot.lines) :
    source.isBoundary line.start = true :=
  (Text.isBoundary_of_slice (hctx.slice_text hline)).1

theorem Views.isBoundary_newlineStart (hctx : ctx.Views source)
    (hline : line ∈ ctx.snapshot.lines) : source.isBoundary line.newlineStart = true :=
  (Text.isBoundary_of_slice (hctx.slice_text hline)).2

/-- Before the end of the source each offset lies on a line that there is. -/
theorem Views.exists_line (hctx : ctx.Views source) (h : i < source.size) :
    ∃ line, ctx.line (ctx.snapshot.lineIndex i) = .ok line ∧ line ∈ ctx.snapshot.lines ∧
      ctx.snapshot.lines[ctx.snapshot.lineIndex i]? = some line ∧ line.start ≤ i ∧
      i < line.stop := by
  obtain ⟨line, hline, hstart, hstop⟩ := hctx.tiles.exists_indexAt (Nat.zero_le i) (by omega)
  refine ⟨line, ?_, List.mem_of_getElem? hline, hline, hstart, hstop⟩
  rw [RuleContext.line, Snapshot.lineIndex, hline]

theorem Views.position_eq (hctx : ctx.Views source) (h : i ≤ source.size) :
    ctx.snapshot.position i = source.positionOf i := by
  obtain ⟨path, root, hsnapshot⟩ := hctx
  rw [hsnapshot]
  exact (Snapshot.counts_of_le h).2

/-- What is reported of a part of the source is located there. -/
theorem Views.locates_report (hctx : ctx.Views source)
    (h : source.slice? start stop = some q) (message : String) (edits : List Edit) :
    ctx.Locates (ctx.report ⟨start, stop⟩ message edits) := by
  obtain ⟨a, b, hsource, hstart, hstop⟩ := Text.slice?_eq_some_iff.mp h
  have hsize := congrArg Text.size hsource
  simp only [Text.size_append] at hsize
  have hfirst := hctx.position_eq (i := start) (by omega)
  have hlast := hctx.position_eq (i := stop) (by omega)
  have hlocation : (ctx.report ⟨start, stop⟩ message edits).location =
      ⟨(source.positionOf start).cut, (source.positionOf stop).cut⟩ := by
    simp only [report, Snapshot.location, hfirst, hlast]
  refine ⟨⟨q, hctx.source_eq ▸ h⟩, ?_, ?_, fun hlimit => ?_⟩
  · rw [hctx.source_eq]
    exact congrArg Location.start hlocation
  · rw [hctx.source_eq]
    exact congrArg Location.stop hlocation
  · have hlimit : stop < sizeLimit := hlimit
    rw [hctx.source_eq, hlocation, Text.cut_positionOf (by omega), Text.cut_positionOf hlimit]
    rfl

theorem Views.locates_report_line (hctx : ctx.Views source) (hline : line ∈ ctx.snapshot.lines)
    (message : String) (edits : List Edit) :
    ctx.Locates (ctx.report line.contentSpan message edits) :=
  hctx.locates_report (hctx.slice_text hline) message edits

theorem answers_ok {found : List Diagnostic} (h : ∀ d ∈ found, ctx.Locates d) :
    ctx.Answers (.ok found) :=
  ⟨found, rfl, h⟩

theorem answers_bind {α : Type} {x : Except RuleError α} {a : α}
    {next : α → Except RuleError (List Diagnostic)} (hx : x = .ok a) (h : ctx.Answers (next a)) :
    ctx.Answers (x >>= next) := by
  rw [hx]
  exact h

end RuleContext

section
variable {ctx : RuleContext} {steps : List (Except RuleError (List Diagnostic))}

theorem exists_parts_of_answers (h : ∀ step ∈ steps, ctx.Answers step) :
    ∃ parts : List (List Diagnostic), steps = parts.map .ok ∧
      ∀ d ∈ parts.flatten, ctx.Locates d := by
  induction steps with
  | nil => exact ⟨[], rfl, by simp⟩
  | cons step steps ih =>
    obtain ⟨found, rfl, hfound⟩ := h step List.mem_cons_self
    obtain ⟨parts, rfl, hparts⟩ := ih fun step hstep => h step (List.mem_cons_of_mem _ hstep)
    refine ⟨found :: parts, rfl, fun d hd => ?_⟩
    rw [List.flatten_cons] at hd
    rcases List.mem_append.mp hd with hd | hd
    · exact hfound d hd
    · exact hparts d hd

end

/-- The rule either answers, with findings about parts of the source, or turns down its options. -/
def Rule.AnswersIn (rule : Rule Id) (ctx : RuleContext) : Prop :=
  (∃ found, Id.run (rule.check ctx).run = .ok found ∧ ∀ d ∈ found, ctx.Locates d) ∨
    ∃ option message, Id.run (rule.check ctx).run = .error (.invalidOption option message)

theorem Rule.answersIn_ofSteps {id name description : String} {canFix : Bool}
    {steps : RuleContext → Except RuleError (List (Except RuleError (List Diagnostic)))}
    {ctx : RuleContext}
    (h : (∃ list, steps ctx = .ok list ∧ ∀ step ∈ list, ctx.Answers step) ∨
      ∃ option message, steps ctx = .error (.invalidOption option message)) :
    (ofSteps id name description canFix steps : Rule Id).AnswersIn ctx := by
  rcases h with ⟨list, hlist, hsteps⟩ | ⟨option, message, hturned⟩
  · obtain ⟨parts, rfl, hparts⟩ := exists_parts_of_answers hsteps
    exact .inl ⟨parts.flatten, Rule.run_ofSteps hlist, hparts⟩
  · exact .inr ⟨option, message, Rule.run_ofSteps_error hturned⟩

/-- A rule that reads a count before all else answers, or turns that option down. -/
theorem Rule.answersIn_of_count {id name description key : String} {canFix : Bool}
    {fallback : Nat}
    {next : RuleContext → Nat → Except RuleError (List (Except RuleError (List Diagnostic)))}
    {ctx : RuleContext}
    (h : ∀ n, (∃ list, next ctx n = .ok list ∧ ∀ step ∈ list, ctx.Answers step) ∨
      ∃ option message, next ctx n = .error (.invalidOption option message)) :
    (ofSteps id name description canFix
      (fun ctx => ctx.countOption key fallback >>= next ctx) : Rule Id).AnswersIn ctx := by
  refine Rule.answersIn_ofSteps ?_
  rcases ctx.countOption_cases key fallback with ⟨n, hn⟩ | ⟨message, hmessage⟩
  · simp only [hn]
    exact h n
  · exact .inr ⟨key, message, by simp only [hmessage]; rfl⟩

end Tidymark
