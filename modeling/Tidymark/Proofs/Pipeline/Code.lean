import Tidymark.Proofs.Markdown.Conversion
import Tidymark.Proofs.Pipeline.Stability
import Tidymark.Proofs.Pipeline.Verbatim

/-! # Code from pass to pass

Each pass of a run spares the code that its own tree shows. The next pass goes by the tree of the
text that the fixes made, where the same lines may be prose: so the code of a run stays the same as
long as the tree behind each pass shows what the pass has kept. -/
namespace Tidymark

open MonadAttach (CanReturn)

mutual

/-- The values of the code in a tree, in source order. -/
def Node.codeValues : Node → List Text
  | .mk kind _ children value _ =>
    (if kind = .code then value.toList else []) ++ Node.codeValuesAll children

def Node.codeValuesAll : List Node → List Text
  | [] => []
  | node :: rest => node.codeValues ++ Node.codeValuesAll rest

end

namespace Snapshot

variable {s : Snapshot} {path : String} {source : Text} {root : Node}

/-- The texts of the blocks of verbatim lines. -/
def verbatimTexts (s : Snapshot) : List Text := (Line.verbatimBlocks s.lines).map (·.text)

/-- What becomes of a snapshot's text keeps its code and its front matter: the blocks of their
lines, each in one piece and in their order, and what is in the source at each of their nodes. -/
structure Kept (s : Snapshot) (next : Text) : Prop where
  blocks : Text.Holds s.verbatimTexts next
  nodes : ∀ span ∈ (Outlook.ofTree s.root).verbatim, ∀ code,
    s.source.slice? span.start span.stop = some code → code <:+: next

theorem verbatim_of_mem_lines {l : Line} (hl : l ∈ (ofTree path source root).lines) {span : Span}
    (hspan : span ∈ (Outlook.ofTree root).verbatim) (hstart : l.start < span.stop)
    (hstop : span.start < l.stop) : l.verbatim = true := by
  obtain ⟨k, -, rfl⟩ := List.mem_map.mp hl
  exact List.any_eq_true.mpr
    ⟨span, hspan, Bool.and_eq_true_iff.mpr ⟨decide_eq_true hstart, decide_eq_true hstop⟩⟩

/-- Fixes that spare the blocks keep code and front matter. -/
theorem kept_applyTo {edits : List Edit} {plan : EditPlan}
    (hplan : EditPlan.prepare source edits = .ok plan)
    (hspares : ∀ e ∈ edits, ∀ block ∈ Line.verbatimBlocks (ofTree path source root).lines,
      e.Spares block) : (ofTree path source root).Kept (plan.applyTo source) where
  blocks :=
    EditPlan.holds_applyTo hplan (tiles_ofTree path source root).stand_verbatimBlocks hspares
  nodes span hspan code hcode := by
    obtain ⟨a, c, hsource, hstart, hstop⟩ := Text.slice?_eq_some_iff.mp hcode
    have hsource : source = a ++ code ++ c := hsource
    have hsize : source.size = a.size + code.size + c.size := by
      rw [hsource, Text.size_append, Text.size_append]
    by_cases hempty : code = []
    · exact hempty ▸ List.nil_infix
    have hpos : 0 < code.size := Text.size_pos_of_ne_nil hempty
    obtain ⟨block, hblock, hleft, hright⟩ := (tiles_ofTree path source root).exists_verbatimBlock
      (s := span) (Nat.zero_le _) (by omega) (by omega)
      (fun l hl => verbatim_of_mem_lines hl hspan)
    have hplace : span.start = 0 + a.size := by omega
    have hstand : Passage.Stand 0 [⟨span.start, code⟩] source :=
      hsource ▸ .cons hplace (.nil _ c)
    refine (EditPlan.holds_applyTo hplan hstand fun e he p hp => ?_).isInfix
    obtain rfl := List.mem_singleton.mp hp
    refine (hspares e he block hblock).mono hleft ?_
    simp only [Passage.stop] at hright ⊢
    omega

theorem headingsAligned_of_no_headings (h : s.headings = []) : s.HeadingsAligned := by
  constructor <;> simp [h]

end Snapshot

namespace Pipeline

variable {p : Pipeline Id} {path : String} {content next source : Text} {root : Node}
variable {r : PipelineResult}

/-- Whatever a pass of rules of the library makes of a text keeps the code that its tree shows. -/
theorem exists_kept_of_nextText (hrules : ∀ r ∈ p.rules, r.rule ∈ Rules.all)
    (haligned : ∀ root, p.parser content = .ok root →
      (Snapshot.ofTree path content root).HeadingsAligned)
    (h : p.nextText path content = .ok next) :
    ∃ root, p.parser content = .ok root ∧ (Snapshot.ofTree path content root).Kept next := by
  obtain ⟨found, hfound, h⟩ := bind_eq_ok_iff.mp h
  obtain ⟨plan, hplan, h⟩ := bind_eq_ok_iff.mp h
  obtain rfl := Except.ok.inj h
  obtain ⟨root, hroot, hfound⟩ := exists_tree_of_lint (m := Id) hfound
  have hspares := spares_of_runRules hrules (haligned root hroot) hfound
  refine ⟨root, hroot, Snapshot.kept_applyTo (mapError_eq_ok_iff.mp hplan) fun e he => ?_⟩
  obtain ⟨d, hd, he⟩ := List.mem_flatMap.mp he
  exact hspares d (List.mem_of_mem_filter hd) e he

/-- The trees of two texts show the same code, provided that the second text still has the code that
the first one shows. -/
def Rereads (p : Pipeline Id) (path : String) (content next : Text) : Prop :=
  ∀ root root', p.parser content = .ok root → p.parser next = .ok root' →
    (Snapshot.ofTree path content root).Kept next → root'.codeValues = root.codeValues

/-- A pass that keeps what the tree of its text shows. -/
def KeepsCode (p : Pipeline Id) (path : String) (source : Text) (n : Nat) : Prop :=
  ∃ content root next, p.texts path source n = .ok content ∧ p.parser content = .ok root ∧
    p.texts path source (n + 1) = .ok next ∧ (Snapshot.ofTree path content root).Kept next

/-- Behind passes that keep the code and read it again, the tree shows the code of the source. -/
theorem codeValues_eq_of_rereads {n : Nat} (hkept : ∀ k < n, p.KeepsCode path source k)
    (hrereads : ∀ k < n, ∀ content next, p.texts path source k = .ok content →
      p.texts path source (k + 1) = .ok next → p.Rereads path content next)
    (hroot : p.parser source = .ok root) {root' : Node}
    (hcontent : p.texts path source n = .ok content) (hroot' : p.parser content = .ok root') :
    root'.codeValues = root.codeValues := by
  induction n generalizing content root' with
  | zero =>
    obtain rfl := Except.ok.inj hcontent
    obtain rfl := Except.ok.inj (hroot.symm.trans hroot')
    rfl
  | succ n ih =>
    obtain ⟨before, rootBefore, next, hbefore, hrootBefore, hnext, hkeeps⟩ := hkept n (by omega)
    obtain rfl := Except.ok.inj (hnext.symm.trans hcontent)
    have hstep : root'.codeValues = rootBefore.codeValues :=
      hrereads n (by omega) before next hbefore hnext rootBefore root' hrootBefore hroot' hkeeps
    have hbefore : rootBefore.codeValues = root.codeValues :=
      ih (fun k hk => hkept k (by omega)) (fun k hk => hrereads k (by omega)) hbefore hrootBefore
    exact hstep.trans hbefore

theorem text_of_stops {limit : Nat} {texts : Nat → Except LintError Text}
    (h : Stops texts limit r) : texts r.passesRun = .ok r.finalContent := by
  cases h with
  | settled hsame hfinal => rw [hsame, hfinal]
  | repeated _ _ _ _ hfinal => exact hfinal
  | capped _ _ hfinal => exact hfinal

/-- The rules of the library on Markdown. -/
def onMarkdown : Pipeline Id := ⟨Parser.markdown, Rules.all.map .ofRule, ⟨true, 10⟩⟩

theorem rules_onMarkdown : ∀ r ∈ onMarkdown.rules, r.rule ∈ Rules.all := by
  intro r hr
  obtain ⟨rule, hrule, rfl⟩ := List.mem_map.mp hr
  exact hrule

theorem parser_onMarkdown (hroot : Markdown.parse content = root)
    (hsize : content.size ≤ sizeLimit) : onMarkdown.parser content = .ok root :=
  Markdown.read_eq_ok_iff.mpr ⟨hsize, hroot⟩

/-- Each pass of a run keeps the code and the front matter that the tree of its own text shows. The
tree of the final content shows the code of the source, unless there is a pass behind which the code
that it has kept is not read again. -/
theorem kept_of_run {bytes : List UInt8} (hfix : p.options.fix = true)
    (hrules : ∀ r ∈ p.rules, r.rule ∈ Rules.all) (hsource : decodeSource bytes = .ok source)
    (h : Id.run (p.run path bytes).run = .ok r)
    (haligned : ∀ n < r.passesRun, ∀ content root, p.texts path source n = .ok content →
      p.parser content = .ok root → (Snapshot.ofTree path content root).HeadingsAligned) :
    p.texts path source r.passesRun = .ok r.finalContent ∧
      (∀ n < r.passesRun, p.KeepsCode path source n) ∧
      ∃ root final, p.parser source = .ok root ∧ p.parser r.finalContent = .ok final ∧
        ((∀ n < r.passesRun, ∀ content next, p.texts path source n = .ok content →
          p.texts path source (n + 1) = .ok next → p.Rereads path content next) →
        final.codeValues = root.codeValues) := by
  obtain ⟨source', hsource', h⟩ := exists_source_of_run (m := Id) h
  obtain rfl := Except.ok.inj (hsource.symm.trans hsource')
  have hends := ends_of_runText hfix h
  have hfinal := text_of_stops hends.stops
  have hpasses : ∀ n < r.passesRun, p.KeepsCode path source n := by
    intro n hn
    obtain ⟨content, hcontent⟩ := hends.exists_text n (by omega)
    obtain ⟨next, hnext⟩ := hends.exists_text (n + 1) (by omega)
    have hstep : p.nextText path content = .ok next :=
      (texts_succ_of_ok hcontent).symm.trans hnext
    obtain ⟨root, hroot, hkept⟩ := exists_kept_of_nextText hrules
      (fun root => haligned n hn content root hcontent) hstep
    exact ⟨content, root, next, hcontent, hroot, hnext, hkept⟩
  obtain ⟨content, root, -, hcontent, hroot, -⟩ := hpasses 0 hends.one_le
  obtain rfl := Except.ok.inj hcontent
  obtain ⟨pass, found, hlint, -⟩ := exists_lint_of_converge h
  obtain ⟨final, hparsed, -⟩ := exists_tree_of_lint (m := Id) hlint
  exact ⟨hfinal, hpasses, root, final, hroot, hparsed, fun hrereads =>
    codeValues_eq_of_rereads hpasses hrereads hroot hfinal hparsed⟩

/-- The fix is behind a line of code, and both trees show the code. -/
theorem kept_of_run_front :
    let source : Text := ['\t', 'x', ' ', '\n', 'a', ' ', '\n']
    let fixed : Text := ['\t', 'x', ' ', '\n', 'a', '\n']
    ∃ r final, Id.run (onMarkdown.run "doc.md" (Text.encode source)).run = .ok r ∧
      r.finalContent = fixed ∧ onMarkdown.parser r.finalContent = .ok final ∧
      final.codeValues = [['x', ' ']] := by
  intro source fixed
  let root (stop : Nat) : Node := .branch .root ⟨0, stop + 1⟩
    [.literal .code ⟨0, 3⟩ ['x', ' '] (.code none false),
      .branch .paragraph ⟨4, stop⟩ [.literal .text ⟨4, 5⟩ ['a']]]
  have hsource : onMarkdown.parser source = .ok (root 6) :=
    parser_onMarkdown (by cbv) (by decide)
  have hfixed : onMarkdown.parser fixed = .ok (root 5) :=
    parser_onMarkdown (by cbv) (by decide)
  have hfirst : onMarkdown.nextText "doc.md" source = .ok fixed :=
    nextText_of_root ⟨[⟨5, 6, []⟩], [], 0⟩ hsource (by cbv) (by cbv)
  have hsecond : onMarkdown.nextText "doc.md" fixed = .ok fixed :=
    nextText_of_root ⟨[], [], 0⟩ hfixed (by cbv) (by cbv)
  have htexts : onMarkdown.texts "doc.md" source 1 = .ok fixed :=
    (texts_succ_of_ok rfl).trans hfirst
  have htexts' : onMarkdown.texts "doc.md" source 2 = .ok fixed :=
    (texts_succ_of_ok htexts).trans hsecond
  have hnew : ∀ k < 1, onMarkdown.texts "doc.md" source k ≠ .ok fixed := by
    intro k hk hsame
    obtain rfl : k = 0 := by omega
    have hsame : source = fixed := Except.ok.inj hsame
    exact absurd hsame (by decide)
  have hlimit : 1 < onMarkdown.passLimit := by decide
  obtain ⟨r, hrun, hr, hpasses⟩ := exists_run_of_settles rfl htexts hsecond hnew hlimit
  have hshown : ∀ n ≤ 2, ∀ content root', onMarkdown.texts "doc.md" source n = .ok content →
      onMarkdown.parser content = .ok root' → ∃ stop, root' = root stop := by
    intro n hn content root' hcontent hroot'
    obtain rfl | rfl | rfl : n = 0 ∨ n = 1 ∨ n = 2 := by omega
    · obtain rfl := Except.ok.inj hcontent
      exact ⟨6, Except.ok.inj (hroot'.symm.trans hsource)⟩
    · obtain rfl := Except.ok.inj (htexts.symm.trans hcontent)
      exact ⟨5, Except.ok.inj (hroot'.symm.trans hfixed)⟩
    · obtain rfl := Except.ok.inj (htexts'.symm.trans hcontent)
      exact ⟨5, Except.ok.inj (hroot'.symm.trans hfixed)⟩
  have haligned : ∀ n < r.passesRun, ∀ content root',
      onMarkdown.texts "doc.md" source n = .ok content → onMarkdown.parser content = .ok root' →
      (Snapshot.ofTree "doc.md" content root').HeadingsAligned := by
    intro n hn content root' hcontent hroot'
    obtain ⟨stop, rfl⟩ := hshown n (by omega) content root' hcontent hroot'
    exact Snapshot.headingsAligned_of_no_headings rfl
  have hrereads : ∀ n < r.passesRun, ∀ content next,
      onMarkdown.texts "doc.md" source n = .ok content →
      onMarkdown.texts "doc.md" source (n + 1) = .ok next →
      onMarkdown.Rereads "doc.md" content next := by
    intro n hn content next hcontent hnext root' root'' hroot' hroot'' hkept
    obtain ⟨stop, rfl⟩ := hshown n (by omega) content root' hcontent hroot'
    obtain ⟨stop', rfl⟩ := hshown (n + 1) (by omega) next root'' hnext hroot''
    rfl
  obtain ⟨-, -, root', final, hroot', hparsed, hcode⟩ :=
    kept_of_run rfl rules_onMarkdown (decodeSource_encode source) hrun haligned
  obtain rfl := Except.ok.inj (hsource.symm.trans hroot')
  exact ⟨r, final, hrun, hr, hparsed, hcode hrereads⟩

/-- A list item with a paragraph and a line of code. The tab behind the marker counts for three
columns. -/
def tabbedItem : Text := ['-', '\t', 'a', '\n', '\n', '\t', '\t', 'b', '\n']

/-- The item with four spaces behind its marker. -/
def spacedItem : Text := ['-', ' ', ' ', ' ', ' ', 'a', '\n', '\n', '\t', '\t', 'b', '\n']

/-- The item without tabs. -/
def untabbedItem : Text :=
  ['-', ' ', ' ', ' ', ' ', 'a', '\n', '\n', ' ', ' ', ' ', ' ', ' ', ' ', ' ', ' ', 'b', '\n']

/-- The tree of a document with one list item that holds a paragraph and something else. -/
def itemRoot (span letter : Span) (second : Node) : Node :=
  .branch .root ⟨0, span.stop + 1⟩
    [.branch .list span
      [.branch .listItem span
        [.branch .paragraph letter [.literal .text letter ['a']], second]] (.list false none false)]

theorem parse_tabbedItem : Markdown.parse tabbedItem =
    itemRoot ⟨0, 8⟩ ⟨2, 3⟩ (.literal .code ⟨5, 8⟩ ['b'] (.code none false)) := by
  cbv

theorem parse_spacedItem : Markdown.parse spacedItem =
    itemRoot ⟨0, 11⟩ ⟨5, 6⟩
      (.branch .paragraph ⟨9, 11⟩ [.literal .text ⟨9, 11⟩ ['\t', 'b']]) := by
  cbv

theorem parse_untabbedItem : Markdown.parse untabbedItem =
    itemRoot ⟨0, 17⟩ ⟨5, 6⟩
      (.branch .paragraph ⟨13, 17⟩ [.literal .text ⟨16, 17⟩ ['b']]) := by
  cbv

theorem nextText_tabbedItem : onMarkdown.nextText "doc.md" tabbedItem = .ok spacedItem :=
  nextText_of_root ⟨[⟨1, 2, [' ', ' ', ' ', ' ']⟩], [], 0⟩
    (parser_onMarkdown parse_tabbedItem (by decide)) (by cbv) (by cbv)

theorem nextText_spacedItem : onMarkdown.nextText "doc.md" spacedItem = .ok untabbedItem :=
  nextText_of_root ⟨[⟨8, 10, [' ', ' ', ' ', ' ', ' ', ' ', ' ', ' ']⟩], [], 0⟩
    (parser_onMarkdown parse_spacedItem (by decide)) (by cbv) (by cbv)

theorem nextText_untabbedItem : onMarkdown.nextText "doc.md" untabbedItem = .ok untabbedItem :=
  nextText_of_root ⟨[], [], 0⟩
    (parser_onMarkdown parse_untabbedItem (by decide)) (by cbv) (by cbv)

/-- Four spaces take the place of the tab behind the marker. To the next tree the line of code below
is prose, so that its tabs become spaces, too. -/
theorem codeValues_run_tabbedItem :
    ∃ r, Id.run (onMarkdown.run "doc.md" (Text.encode tabbedItem)).run = .ok r ∧
      (Markdown.parse tabbedItem).codeValues = [['b']] ∧
      (Markdown.parse r.finalContent).codeValues = [] := by
  have htexts : onMarkdown.texts "doc.md" tabbedItem 1 = .ok spacedItem :=
    (texts_succ_of_ok rfl).trans nextText_tabbedItem
  have htexts' : onMarkdown.texts "doc.md" tabbedItem 2 = .ok untabbedItem :=
    (texts_succ_of_ok htexts).trans nextText_spacedItem
  have hnew : ∀ k < 2, onMarkdown.texts "doc.md" tabbedItem k ≠ .ok untabbedItem := by
    intro k hk hsame
    obtain rfl | rfl : k = 0 ∨ k = 1 := by omega
    · have hsame : tabbedItem = untabbedItem := Except.ok.inj hsame
      exact absurd hsame (by decide)
    · have hsame : spacedItem = untabbedItem := Except.ok.inj (htexts.symm.trans hsame)
      exact absurd hsame (by decide)
  have hlimit : 2 < onMarkdown.passLimit := by decide
  obtain ⟨r, hrun, hr, -⟩ := exists_run_of_settles rfl htexts' nextText_untabbedItem hnew hlimit
  refine ⟨r, hrun, ?_, ?_⟩
  · rw [parse_tabbedItem]
    rfl
  · rw [hr, parse_untabbedItem]
    rfl

end Pipeline
end Tidymark
