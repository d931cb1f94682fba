import Tidymark.Proofs.Edit.Order
import Tidymark.Proofs.Rules.Headings
import Tidymark.Proofs.Text.Passage
import Tidymark.Proofs.Text.Trim

/-! # Character references at the end of headings

The semicolon of a character reference is spared where it ends the text of a heading. It is taken out
where other punctuation stands behind it: only the very end of the text is looked at, but all the
punctuation there is deleted in one piece. -/
namespace Tidymark.Rules.HeadingPunctuation

open MonadAttach (CanReturn)
open Text (isWhitespace trimEndBy)

/-- The text ends in a character reference: `&`, perhaps `#`, letters or digits, and a semicolon. -/
def EndsReference (t : Text) : Prop :=
  ∃ front hash name : Text, t = front ++ '&' :: (hash ++ name) ++ [';'] ∧
    (hash = [] ∨ hash = ['#']) ∧ name ≠ [] ∧ ∀ c ∈ name, c.isAlphanum = true

/-- The text of a heading, with its offset. -/
def IsTextOf (ctx : RuleContext) (heading : Heading) (p : Passage) : Prop :=
  ∃ line text, ctx.line (textLine ctx.snapshot heading) = .ok line ∧
    p.start = max line.start heading.span.start ∧ ctx.slice p.start line.newlineStart = .ok text ∧
    p.text = if heading.setext then trimEndBy isWhitespace text else content text

/-- Whether a text ends in a character reference. -/
def endsReference (text : Text) : Bool :=
  match text.reverse with
  | ';' :: body =>
    let name := (body.takeWhile (· != '&')).reverse
    let name := if name.head? == some '#' then name.drop 1 else name
    body.contains '&' && !name.isEmpty && name.all Char.isAlphanum
  | _ => false

/-- Whether the end of the text of a heading is taken out. -/
def isCut (forbidden text : Text) : Bool :=
  (trimEndBy forbidden.contains text).length != text.length && !endsReference text

/-- The forbidden characters at the end of a passage. -/
def cutSpan (forbidden : Text) (p : Passage) : Span :=
  ⟨p.start + Text.size (trimEndBy forbidden.contains p.text), p.stop⟩

def cuts (forbidden : Text) (p : Passage) : List Edit :=
  if isCut forbidden p.text then [.deleteSpan (cutSpan forbidden p)] else []

def reports (ctx : RuleContext) (forbidden : Text) (p : Passage) : List Diagnostic :=
  (cuts forbidden p).map fun e =>
    ctx.report (cutSpan forbidden p) ("Punctuation: '" ++
      String.ofList (p.text.drop (trimEndBy forbidden.contains p.text).length) ++ "'") [e]

variable {ctx : RuleContext} {source forbidden t before behind : Text} {heading : Heading}
variable {found part : List Diagnostic} {p : Passage} {offset : Nat}
variable {m : Type → Type} [Monad m] [LawfulMonad m] [MonadAttach m] [LawfulMonadAttach m]
variable [MonadCancel m]

theorem takeWhile_ne_append {c : Char} {name : Text} (h : c ∉ name) (rest : Text) :
    (name ++ c :: rest).takeWhile (· != c) = name := by
  rw [List.takeWhile_append_of_pos, List.takeWhile_cons_of_neg, List.append_nil]
  · simp
  · intro d hd
    simpa using ne_of_mem_of_not_mem hd h

/-- The rule cuts a text behind its last ampersand, and does not break down there. -/
theorem endsInReference_eq (t : Text) : endsInReference t = .ok (endsReference t) := by
  unfold endsInReference
  split
  · rename_i body hbody
    simp only [endsReference, hbody]
    by_cases hamp : '&' ∈ body
    · obtain ⟨name, rest, rfl, hname⟩ := List.eq_append_cons_of_mem hamp
      have hreverse : (name ++ '&' :: rest).reverse = rest.reverse ++ '&' :: name.reverse := by simp
      have hfind : Text.rfind? '&' (rest.reverse ++ '&' :: name.reverse) =
          some (Text.size rest.reverse) := Text.rfind?_append _ (by simpa using hname)
      have hcut : Text.dropBytes (rest.reverse ++ ['&'] ++ name.reverse)
          (Text.size (rest.reverse ++ ['&'])) = .ok name.reverse :=
        Text.dropBytes_size_append _ _
      rw [List.append_assoc, Text.size_append] at hcut
      have hone : Text.size ['&'] = 1 := rfl
      rw [hone, List.singleton_append] at hcut
      rw [hreverse, hfind]
      dsimp only [bind, Except.bind]
      rw [hcut, takeWhile_ne_append hname]
      simp [pure, Except.pure]
    · have hfind : Text.rfind? '&' body.reverse = none :=
        Text.rfind?_eq_none (by simpa using hamp)
      rw [hfind]
      simp [hamp, pure, Except.pure]
  · rename_i hnot
    unfold endsReference
    split
    · rename_i body hbody
      exact absurd hbody (hnot body)
    · rfl

theorem findings_of_isTextOf (h : IsTextOf ctx heading p) :
    findings ctx forbidden heading = .ok (reports ctx forbidden p) := by
  obtain ⟨line, text, hline, hstart, htext, hp⟩ := h
  unfold findings
  rw [hline]
  dsimp only [bind, Except.bind]
  rw [← hstart, htext]
  dsimp only
  rw [← hp]
  have hprefix := Text.trimEndBy_isPrefix forbidden.contains p.text
  have hending := Text.dropBytes_of_isPrefix hprefix
  simp only [Text.size_eq_iff_of_isPrefix hprefix, endsInReference_eq, hending]
  by_cases hsame : (trimEndBy forbidden.contains p.text).length = p.text.length
  · rw [if_pos hsame, reports, cuts, if_neg (by simp [isCut, hsame])]
    rfl
  · rw [if_neg hsame]
    cases href : endsReference p.text with
    | true =>
      rw [if_pos rfl, reports, cuts, if_neg (by simp [isCut, href])]
      rfl
    | false =>
      rw [if_neg Bool.false_ne_true, reports, cuts, if_pos (by simp [isCut, href, hsame])]
      rfl

theorem exists_isTextOf (h : findings ctx forbidden heading = .ok part) :
    ∃ p, IsTextOf ctx heading p := by
  obtain ⟨line, hline, h⟩ := bind_eq_ok_iff.mp h
  obtain ⟨text, htext, -⟩ := bind_eq_ok_iff.mp h
  exact ⟨⟨_, _⟩, line, text, hline, rfl, htext, rfl⟩

theorem edits_reports (ctx : RuleContext) (forbidden : Text) (p : Passage) :
    (reports ctx forbidden p).flatMap (·.edits) = cuts forbidden p := by
  rw [reports, List.flatMap_map]
  exact List.flatMap_singleton' _

theorem exists_hash (name : Text) : ∃ hash : Text, (hash = [] ∨ hash = ['#']) ∧
    name = hash ++ if name.head? == some '#' then name.drop 1 else name := by
  cases name with
  | nil => exact ⟨[], .inl rfl, rfl⟩
  | cons c name =>
    by_cases hc : c = '#'
    · exact ⟨['#'], .inr rfl, by simp [hc]⟩
    · exact ⟨[], .inl rfl, by simp [hc]⟩

theorem endsReference_iff : endsReference t = true ↔ EndsReference t := by
  constructor
  · intro h
    simp only [endsReference] at h
    split at h
    · rename_i body hbody
      simp only [Bool.and_eq_true, List.contains_iff_mem] at h
      obtain ⟨⟨hamp, hne⟩, hname⟩ := h
      obtain ⟨w, rest, rfl, hw⟩ := List.eq_append_cons_of_mem hamp
      obtain ⟨hash, hhash, hsplit⟩ := exists_hash w.reverse
      rw [takeWhile_ne_append hw] at hne hname
      generalize (if w.reverse.head? == some '#' then _ else w.reverse) = name at hne hname hsplit
      refine ⟨rest.reverse, hash, name, ?_, hhash, by simpa using hne, List.all_eq_true.mp hname⟩
      rw [← hsplit]
      simpa using congrArg List.reverse hbody
    · cases h
  · rintro ⟨front, hash, name, rfl, hhash, hne, hname⟩
    have hreverse : (front ++ '&' :: (hash ++ name) ++ [';']).reverse =
        ';' :: ((hash ++ name).reverse ++ '&' :: front.reverse) := by simp
    have hamp : '&' ∉ (hash ++ name).reverse := by
      rw [List.mem_reverse, List.mem_append, not_or]
      refine ⟨?_, fun hmem => absurd (hname _ hmem) (by decide)⟩
      rcases hhash with rfl | rfl
      · simp
      · simp
    have hname' : (if (hash ++ name).head? == some '#' then (hash ++ name).drop 1
        else hash ++ name) = name := by
      rcases hhash with rfl | rfl
      · cases name with
        | nil => rfl
        | cons c name =>
          have hc : c ≠ '#' := fun hc => absurd (hname c (by simp)) (by simp [hc])
          simp [hc]
      · rfl
    simp only [endsReference, hreverse, takeWhile_ne_append hamp, List.reverse_reverse, hname']
    simpa using ⟨hne, hname⟩

/-- A letter or a digit stands before the semicolon. -/
theorem EndsReference.exists_letter (h : EndsReference t) :
    ∃ body c, t = body ++ [c] ++ [';'] ∧ c.isAlphanum = true := by
  obtain ⟨front, hash, name, rfl, -, hne, hname⟩ := h
  refine ⟨front ++ '&' :: hash ++ name.dropLast, name.getLast hne, ?_,
    hname _ (List.getLast_mem hne)⟩
  conv_lhs => rw [← List.dropLast_append_getLast hne]
  simp

section
variable (hsemicolon : ';' ∈ forbidden) (hletters : ∀ c ∈ forbidden, c.isAlphanum = false)
include hsemicolon hletters

/-- No reference ends in two characters that are forbidden. -/
theorem not_endsReference (hne : behind ≠ []) (hall : ∀ c ∈ behind, c ∈ forbidden) :
    endsReference (before ++ ';' :: behind) = false := by
  rw [Bool.eq_false_iff, Ne, endsReference_iff]
  intro h
  obtain ⟨body, c, hbody, hc⟩ := h.exists_letter
  obtain ⟨init, x, rfl⟩ : ∃ init x, behind = init ++ [x] :=
    ⟨behind.dropLast, behind.getLast hne, (List.dropLast_append_getLast hne).symm⟩
  have hbody' : (before ++ ';' :: init) ++ [x] = (body ++ [c]) ++ [';'] := by simpa using hbody
  have hlast := congrArg List.getLast? (List.append_inj' hbody' rfl).1
  rw [List.getLast?_append_of_ne_nil _ (List.cons_ne_nil _ _), List.getLast?_concat] at hlast
  rcases List.mem_cons.mp (List.mem_of_getLast? hlast) with rfl | hmem
  · simp [hletters _ hsemicolon] at hc
  · simp [hletters c (hall c (by simp [hmem]))] at hc

/-- Of a text in which only forbidden characters follow a reference, its semicolon is not kept. -/
theorem trimEndBy_reference (href : EndsReference (before ++ [';']))
    (hall : ∀ c ∈ behind, c ∈ forbidden) :
    trimEndBy forbidden.contains (before ++ ';' :: behind) = before := by
  obtain ⟨body, c, hbody, hc⟩ := href.exists_letter
  obtain rfl := List.append_cancel_right hbody
  refine Text.trimEndBy_append (fun d hd => ?_) (fun d hd => ?_)
  · obtain rfl : c = d := by simpa using hd
    rw [Bool.eq_false_iff, Ne, List.contains_iff_mem]
    intro hmem
    simp [hletters c hmem] at hc
  · rw [List.contains_iff_mem]
    rcases List.mem_cons.mp hd with rfl | hd
    · exact hsemicolon
    · exact hall d hd

theorem covers_cuts_iff (hp : p.text = before ++ ';' :: behind)
    (href : EndsReference (before ++ [';'])) :
    covers (cuts forbidden p) (p.start + before.size) = true ↔
      behind ≠ [] ∧ ∀ c ∈ behind, c ∈ forbidden := by
  have hone : ';'.utf8Size = 1 := rfl
  have hsize : p.text.size = before.size + (1 + behind.size) := by
    rw [hp, Text.size_append, Text.size_cons, hone]
  constructor
  · intro h
    obtain ⟨e, he, hstart, -⟩ := covers_iff.mp h
    unfold cuts at he
    split at he
    · rename_i hcut
      obtain rfl := List.mem_singleton.mp he
      simp only [isCut, Bool.and_eq_true, bne_iff_ne, Bool.not_eq_true'] at hcut
      refine ⟨?_, ?_⟩
      · rintro rfl
        rw [hp, endsReference_iff.mpr href] at hcut
        cases hcut.2
      · obtain ⟨s, hs, hforbidden⟩ := Text.exists_eq_trimEndBy_append forbidden.contains p.text
        simp only [Edit.deleteSpan, Edit.replaceSpan, cutSpan] at hstart
        obtain ⟨x, -, hx⟩ := Text.exists_append_of_size_le (hs.symm.trans hp) (by omega)
        intro c hc
        exact List.contains_iff_mem.mp (hforbidden c (by simp [hx, hc]))
    · cases he
  · rintro ⟨hne, hall⟩
    have hkept : trimEndBy forbidden.contains p.text = before := by
      rw [hp, trimEndBy_reference hsemicolon hletters href hall]
    have hcut : isCut forbidden p.text = true := by
      rw [isCut, hkept, hp, not_endsReference hsemicolon hletters hne hall]
      simp
    refine covers_iff.mpr ⟨_, by rw [cuts, if_pos hcut]; exact List.mem_singleton_self _, ?_, ?_⟩
    · simp only [Edit.deleteSpan, Edit.replaceSpan, cutSpan, hkept]
      omega
    · simp only [Edit.deleteSpan, Edit.replaceSpan, cutSpan, Passage.stop]
      omega

end

theorem IsTextOf.exists_around (h : IsTextOf ctx heading p) (hctx : ctx.Views source) :
    ∃ a b, source = a ++ p.text ++ b ∧ p.start = a.size := by
  obtain ⟨line, text, -, -, htext, hp⟩ := h
  obtain ⟨a, b, hsource, hstart⟩ := hctx.exists_of_slice htext
  obtain ⟨rest, hrest⟩ := trimmed_isPrefix heading text
  rw [← hp] at hrest
  exact ⟨a, rest ++ b, by rw [hsource, ← hrest]; simp, hstart⟩

theorem toList_defaultPunctuation : defaultPunctuation.toList = ['.', ',', ';', ':', '!'] := by
  simp [defaultPunctuation]

theorem isAlphanum_of_mem_defaultPunctuation :
    ∀ c ∈ defaultPunctuation.toList, c.isAlphanum = false := by
  simp [toList_defaultPunctuation]

/-- The semicolon of a reference in the text of a heading is deleted if and only if other punctuation,
and nothing else, follows it there. -/
theorem covers_reference_iff (hctx : ctx.Views source)
    (hoption : ctx.stringOption "punctuation" defaultPunctuation = .ok defaultPunctuation)
    (hfound : CanReturn ((rule : Rule m).check ctx) found) :
    ∃ parts : List (List Diagnostic), found = parts.flatten ∧
      List.Forall₂ (fun heading part => ∃ p, IsTextOf ctx heading p ∧
        (∃ a b, source = a ++ p.text ++ b ∧ p.start = a.size) ∧
        ∀ before behind, p.text = before ++ ';' :: behind → EndsReference (before ++ [';']) →
          (covers (part.flatMap (·.edits)) (p.start + before.size) = true ↔
            behind ≠ [] ∧ ∀ c ∈ behind, c ∈ defaultPunctuation.toList))
        ctx.snapshot.headings parts := by
  obtain ⟨parts, hsteps, rfl⟩ := Rule.canReturn_ofSteps hfound
  rw [steps, hoption] at hsteps
  have hparts := Except.ok.inj hsteps
  rw [← List.forall₂_eq_eq_eq, List.forall₂_map_left_iff, List.forall₂_map_right_iff] at hparts
  refine ⟨parts, rfl, hparts.imp fun heading part hpart => ?_⟩
  obtain ⟨p, hp⟩ := exists_isTextOf hpart
  obtain rfl := Except.ok.inj ((findings_of_isTextOf hp).symm.trans hpart)
  refine ⟨p, hp, hp.exists_around hctx, fun before behind htext href => ?_⟩
  rw [edits_reports]
  refine covers_cuts_iff ?_ isAlphanum_of_mem_defaultPunctuation htext href
  simp [toList_defaultPunctuation]

/-- The first heading keeps its reference, the second one does not. -/
theorem covers_reference_iff_two :
    let source : Text :=
      ['#', ' ', 'a', '&', 'l', 't', ';', '\n', '#', ' ', 'b', '&', 'g', 't', ';', ':', '\n']
    let root : Node := .branch .root ⟨0, 17⟩
      [.mk .heading ⟨0, 7⟩ [] none (.heading 1 false), .mk .heading ⟨8, 16⟩ [] none (.heading 1 false)]
    let ctx : RuleContext :=
      ⟨.ofTree "a.md" source root, "MD026", "no-trailing-punctuation", .error, Json.empty⟩
    ∃ found, Id.run ((rule : Rule Id).check ctx).run = .ok found ∧
      found.flatMap (·.edits) = [.deleteSpan ⟨14, 16⟩] ∧
      ∃ parts : List (List Diagnostic), found = parts.flatten ∧
        List.Forall₂ (fun heading part => ∃ p, IsTextOf ctx heading p ∧
          (∃ a b, source = a ++ p.text ++ b ∧ p.start = a.size) ∧
          ∀ before behind, p.text = before ++ ';' :: behind → EndsReference (before ++ [';']) →
            (covers (part.flatMap (·.edits)) (p.start + before.size) = true ↔
              behind ≠ [] ∧ ∀ c ∈ behind, c ∈ defaultPunctuation.toList))
          ctx.snapshot.headings parts := by
  intro source root ctx
  let found : List Diagnostic := [ctx.report ⟨14, 16⟩ "Punctuation: ';:'" [.deleteSpan ⟨14, 16⟩]]
  have hfound : Id.run ((rule : Rule Id).check ctx).run = .ok found := by cbv
  exact ⟨found, hfound, rfl, covers_reference_iff (m := Id) ⟨"a.md", root, rfl⟩ rfl hfound⟩

/-- The period behind the reference is taken out together with the semicolon. -/
theorem covers_semicolon_before_period :
    let source : Text := ['#', ' ', 'F', 'i', 's', 'h', ' ', '&', 'a', 'm', 'p', ';', '.', '\n']
    let root : Node := .branch .root ⟨0, 14⟩
      [.mk .heading ⟨0, 13⟩ [.literal .text ⟨2, 13⟩ ['F', 'i', 's', 'h', ' ', '&', '.']] none
        (.heading 1 false)]
    let ctx : RuleContext :=
      ⟨.ofTree "a.md" source root, "MD026", "no-trailing-punctuation", .error, Json.empty⟩
    (∀ heading ∈ ctx.snapshot.headings,
      heading.span.start ≤ heading.span.stop ∧ heading.span.stop ≤ source.size) ∧
    ctx.stringOption "punctuation" defaultPunctuation = .ok defaultPunctuation ∧
    ∃ found before behind, Id.run ((rule : Rule Id).check ctx).run = .ok found ∧
      source = before ++ ';' :: behind ∧ EndsReference (before ++ [';']) ∧
      covers (found.flatMap (·.edits)) before.size = true := by
  intro source root ctx
  let before : Text := ['#', ' ', 'F', 'i', 's', 'h', ' ', '&', 'a', 'm', 'p']
  let found : List Diagnostic := [ctx.report ⟨11, 13⟩ "Punctuation: ';.'" [.deleteSpan ⟨11, 13⟩]]
  have hfound : Id.run ((rule : Rule Id).check ctx).run = .ok found := by cbv
  refine ⟨by decide, rfl, found, before, ['.', '\n'], hfound, rfl, ?_, by decide⟩
  exact endsReference_iff.mp (by decide)

end Tidymark.Rules.HeadingPunctuation
