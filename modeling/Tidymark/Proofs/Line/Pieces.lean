import Tidymark.Proofs.Line.Tiling

/-! # Cutting a text into lines again

A text is cut behind each line feed. So texts that each end in their only line feed are what their
join is cut into. How such a text ends as a line depends on what stands before its line feed: a
carriage return there belongs to the terminator. -/
namespace Tidymark.Line

/-- Texts that each end in their only line feed, but for the last, which may have none. -/
inductive Closed : List Text → Prop
  | nil : Closed []
  | last {t : Text} (h : '\n' ∉ t) : Closed [t]
  | cons {t : Text} {rest : List Text} (h : '\n' ∉ t) (tail : Closed rest) :
      Closed ((t ++ ['\n']) :: rest)

variable {t rest : Text} {ps qs : List Text} {l : Line} {start : Nat}

theorem closed_pieces (t : Text) : Closed (pieces t) := by
  induction t with
  | nil => exact .nil
  | cons c t ih =>
    by_cases hc : c = '\n'
    · subst hc
      exact .cons (t := []) List.not_mem_nil ih
    · have hc' : '\n' ∉ [c] := by simpa using Ne.symm hc
      simp only [pieces, beq_iff_eq, hc, if_false]
      split
      · exact .last hc'
      · rename_i piece others hpieces
        rw [hpieces] at ih
        cases ih with
        | last h => exact .last (t := c :: piece) (by simp [Ne.symm hc, h])
        | @cons first _ h tail => exact .cons (t := c :: first) (by simp [Ne.symm hc, h]) tail

theorem pieces_of_not_mem (h : '\n' ∉ t) (hne : t ≠ []) : pieces t = [t] := by
  induction t with
  | nil => exact absurd rfl hne
  | cons c t ih =>
    simp only [List.mem_cons, not_or] at h
    cases t with
    | nil => simp [pieces, Ne.symm h.1]
    | cons d t =>
      rw [pieces, if_neg (by simpa using Ne.symm h.1), ih h.2 (List.cons_ne_nil d t)]

theorem pieces_append_newline (h : '\n' ∉ t) (rest : Text) :
    pieces (t ++ '\n' :: rest) = (t ++ ['\n']) :: pieces rest := by
  induction t with
  | nil => simp [pieces]
  | cons c t ih =>
    simp only [List.mem_cons, not_or] at h
    simp [pieces, Ne.symm h.1, ih h.2]

/-- The join of closed texts is cut into these texts; only an empty one at the end is lost. -/
theorem Closed.pieces_flatten (h : Closed ps) : pieces ps.flatten = ps.filter (· ≠ []) := by
  induction h with
  | nil => rfl
  | @last t h =>
    cases t with
    | nil => rfl
    | cons c t => simpa using pieces_of_not_mem h (List.cons_ne_nil c t)
  | @cons t rest h tail ih => simp [pieces_append_newline h, ih]

theorem Closed.pieces_flatten_eq_self (h : Closed ps) (hne : ∀ p ∈ ps, p ≠ []) :
    pieces ps.flatten = ps := by
  rw [h.pieces_flatten, List.filter_eq_self]
  simpa using hne

/-- Closed texts of which some are left out are closed. -/
theorem Closed.sublist (h : Closed ps) (hsub : qs.Sublist ps) : Closed qs := by
  induction h generalizing qs with
  | nil =>
    obtain rfl := List.sublist_nil.mp hsub
    exact .nil
  | @last t h =>
    cases hsub with
    | cons _ hsub =>
      obtain rfl := List.sublist_nil.mp hsub
      exact .nil
    | cons_cons _ hsub =>
      obtain rfl := List.sublist_nil.mp hsub
      exact .last h
  | cons h tail ih =>
    cases hsub with
    | cons _ hsub => exact ih hsub
    | cons_cons _ hsub => exact .cons h (ih hsub)

/-- What goes before a closed text ends in a line feed, and a text without one is the last. -/
theorem Closed.at_border {p : Text} (h : Closed (ps ++ p :: qs)) :
    (∀ c ∈ ps.flatten.getLast?, c = '\n') ∧ ('\n' ∉ p → qs = []) := by
  induction ps with
  | nil =>
    refine ⟨by simp, fun hp => ?_⟩
    cases h with
    | last => rfl
    | cons => simp at hp
  | cons first ps ih =>
    generalize hall : first :: ps ++ p :: qs = all at h
    cases h with
    | nil => cases hall
    | last => simp at hall
    | @cons t others h tail =>
      obtain ⟨rfl, rfl⟩ := List.cons.inj hall
      obtain ⟨hbefore, hlast⟩ := ih tail
      refine ⟨fun c hc => ?_, hlast⟩
      rw [List.flatten_cons, List.getLast?_append] at hc
      cases hend : ps.flatten.getLast? with
      | none => simpa [hend, eq_comm] using hc
      | some d =>
        obtain rfl : d = c := by simpa [hend] using hc
        exact hbefore d (by rw [hend]; rfl)

/-- Behind closed texts may stand one that is closed with a line feed. -/
theorem Closed.concat {p : Text} (h : Closed (ps ++ p :: qs)) (ht : '\n' ∉ t) :
    Closed (ps ++ [t ++ ['\n']]) := by
  induction ps with
  | nil => exact .cons ht .nil
  | cons first ps ih =>
    generalize hall : first :: ps ++ p :: qs = all at h
    cases h with
    | nil => cases hall
    | last => simp at hall
    | cons h tail =>
      obtain ⟨rfl, rfl⟩ := List.cons.inj hall
      exact .cons h (ih tail)

theorem ofPiece_crlf (start : Nat) (t : Text) :
    ofPiece start (t ++ ['\r', '\n']) = ⟨start, t, ['\r', '\n'], false⟩ := by
  simp [ofPiece, terminatorOf]

theorem ofPiece_lf (h : t.getLast? ≠ some '\r') :
    ofPiece start (t ++ ['\n']) = ⟨start, t, ['\n'], false⟩ := by
  have hterminator : terminatorOf (t ++ ['\n']) = ['\n'] := by
    rcases List.eq_nil_or_concat t with rfl | ⟨u, c, rfl⟩
    · rfl
    · have hc : c ≠ '\r' := by simpa using h
      simp [terminatorOf, hc]
  simp [ofPiece, hterminator]

theorem ofPiece_of_not_mem (h : '\n' ∉ t) : ofPiece start t = ⟨start, t, [], false⟩ := by
  have hterminator : terminatorOf t = [] := by
    rcases List.eq_nil_or_concat t with rfl | ⟨u, c, rfl⟩
    · rfl
    · have hc : c ≠ '\n' := fun hc => h (by simp [hc])
      simp [terminatorOf, hc]
  simp [ofPiece, hterminator]

/-- How a line of a text ends: in a line feed, in a carriage return with a line feed, or, if it is the
last one, in nothing. -/
inductive Ends : Line → Prop
  | last (start : Nat) {t : Text} (h : '\n' ∉ t) : Ends ⟨start, t, [], false⟩
  | lf (start : Nat) {t : Text} (h : '\n' ∉ t) (hopen : t.getLast? ≠ some '\r') :
      Ends ⟨start, t, ['\n'], false⟩
  | crlf (start : Nat) {t : Text} (h : '\n' ∉ t) : Ends ⟨start, t, ['\r', '\n'], false⟩

theorem ends_ofPiece (start : Nat) (h : '\n' ∉ t) : Ends (ofPiece start (t ++ ['\n'])) := by
  by_cases hopen : t.getLast? = some '\r'
  · obtain ⟨u, rfl⟩ := List.getLast?_eq_some_iff.mp hopen
    rw [List.append_assoc]
    exact ofPiece_crlf start u ▸ .crlf start fun hu => h (List.mem_append_left _ hu)
  · exact ofPiece_lf hopen ▸ .lf start h hopen

theorem Closed.ends (h : Closed ps) (start : Nat) : ∀ l ∈ layOut start ps, Ends l := by
  induction h generalizing start with
  | nil => simp [layOut]
  | last h => simpa [layOut, ofPiece_of_not_mem h] using Ends.last start h
  | cons h tail ih => exact List.forall_mem_cons.mpr ⟨ends_ofPiece start h, ih _⟩

theorem exists_terminator_ofPiece (start : Nat) (t : Text) :
    ∃ x, (ofPiece start (t ++ ['\n'])).terminator = x ++ ['\n'] ∧ '\n' ∉ x := by
  by_cases hopen : t.getLast? = some '\r'
  · obtain ⟨u, rfl⟩ := List.getLast?_eq_some_iff.mp hopen
    rw [List.append_assoc]
    exact ⟨['\r'], by rw [List.singleton_append, ofPiece_crlf], by decide⟩
  · exact ⟨[], by rw [ofPiece_lf hopen]; rfl, List.not_mem_nil⟩

/-- Lines with other texts in the place of theirs, each with what else is known of it, are closed
again. -/
theorem Closed.map_layOut {α : Type} {line : α → Line} {items : List α} {f : α → Text}
    (h : Closed ps) (hitems : items.map line = layOut start ps) (hf : ∀ a ∈ items, '\n' ∉ f a) :
    Closed (items.map fun a => f a ++ (line a).terminator) := by
  induction h generalizing start items with
  | nil =>
    obtain rfl := List.map_eq_nil_iff.mp hitems
    exact .nil
  | last h =>
    obtain ⟨a, rfl, ha⟩ := List.map_eq_singleton_iff.mp hitems
    rw [List.map_singleton, ha, ofPiece_of_not_mem h, List.append_nil]
    exact .last (hf a (by simp))
  | @cons t rest h tail ih =>
    obtain ⟨a, items, rfl, ha, hitems⟩ := List.map_eq_cons_iff.mp hitems
    obtain ⟨x, hx, hnot⟩ := exists_terminator_ofPiece start t
    rw [List.map_cons, ha, hx, ← List.append_assoc]
    refine .cons ?_ (ih hitems fun b hb => hf b (by simp [hb]))
    rw [List.mem_append, not_or]
    exact ⟨hf a (by simp), hnot⟩

theorem layOut_append (start : Nat) (ps qs : List Text) :
    layOut start (ps ++ qs) = layOut start ps ++ layOut (start + Text.size ps.flatten) qs := by
  induction ps generalizing start with
  | nil => rfl
  | cons p ps ih => simp [layOut, ih, Nat.add_assoc]

theorem map_whole_layOut (start : Nat) (ps : List Text) : (layOut start ps).map whole = ps := by
  induction ps generalizing start with
  | nil => rfl
  | cons p ps ih => rw [layOut, List.map_cons, whole_ofPiece, ih]

/-- A line is blank if its piece is, as terminators are white space. -/
theorem isBlank_ofPiece (start : Nat) (p : Text) :
    (ofPiece start p).isBlank = p.all Text.isWhitespace := by
  have hterminator : (ofPiece start p).terminator.all Text.isWhitespace = true :=
    List.all_eq_true.mpr fun c hc => isWhitespace_of_mem_terminatorOf hc
  conv_rhs => rw [← whole_ofPiece start p, whole, List.all_append, hterminator, Bool.and_true]
  rfl

theorem isBlank_of_mem_ofText (h : l ∈ ofText t) : l.isBlank = l.whole.all Text.isWhitespace := by
  obtain ⟨start, p, -, rfl⟩ := mem_layOut h
  rw [isBlank_ofPiece, whole_ofPiece]

/-- What is counted of lines by their texts does not depend on where they are. -/
theorem countP_layOut (start : Nat) (ps : List Text) (q : Text → Bool) :
    (layOut start ps).countP (fun l => q l.text) = ps.countP fun p => q (ofPiece 0 p).text := by
  induction ps generalizing start with
  | nil => rfl
  | cons p ps ih =>
    rw [layOut, List.countP_cons, List.countP_cons, ih]
    rfl

theorem exists_split_of_mem_layOut (h : l ∈ layOut start ps) :
    ∃ before p after, ps = before ++ p :: after ∧ l = ofPiece (start + Text.size before.flatten) p := by
  induction ps generalizing start with
  | nil => cases h
  | cons p ps ih =>
    rcases List.mem_cons.mp h with rfl | h
    · exact ⟨[], p, ps, rfl, rfl⟩
    · obtain ⟨before, p', after, rfl, rfl⟩ := ih h
      exact ⟨p :: before, p', after, rfl, by simp [Nat.add_assoc]⟩

theorem ends_of_mem_ofText (h : l ∈ ofText t) : Ends l := (closed_pieces t).ends 0 l h

theorem Ends.eq_of_mem_terminator {c : Char} (h : Ends l) (hc : c ∈ l.terminator) :
    c = '\r' ∨ c = '\n' := by
  cases h with
  | last => cases hc
  | lf => exact .inr (by simpa using hc)
  | crlf => simpa using hc

theorem Ends.getLast?_text_ne (h : Ends l) (hlf : l.terminator = ['\n']) :
    l.text.getLast? ≠ some '\r' := by
  cases h with
  | last => cases hlf
  | lf _ _ hopen => exact hopen
  | crlf => cases hlf

/-- A line that is given a line feed if it has none ends in its only one. -/
theorem Ends.exists_closing (h : Ends l) :
    ∃ t, '\n' ∉ t ∧ l.whole ++ (if l.hasNewline then [] else ['\n']) = t ++ ['\n'] := by
  cases h with
  | @last _ t h => exact ⟨t, h, by simp [whole, hasNewline]⟩
  | @lf _ t h => exact ⟨t, h, by simp [whole, hasNewline]⟩
  | @crlf _ t h => exact ⟨t ++ ['\r'], by simp [h], by simp [whole, hasNewline]⟩

theorem Ends.not_mem_text (h : Ends l) : '\n' ∉ l.text := by
  cases h with
  | last _ h => exact h
  | lf _ h => exact h
  | crlf _ h => exact h

/-- Right before and right behind the text of a line is the end of a line or of the whole text. -/
theorem exists_around_of_mem_ofText {source : Text} (h : l ∈ ofText source) :
    ∃ a b, source = a ++ l.text ++ b ∧ l.start = a.size ∧ (∀ c ∈ a.getLast?, c = '\n') ∧
      ∀ c ∈ b.head?, c = '\r' ∨ c = '\n' := by
  have hends := ends_of_mem_ofText h
  obtain ⟨before, p, after, hpieces, rfl⟩ := exists_split_of_mem_layOut h
  obtain ⟨hbefore, hlast⟩ := (hpieces ▸ closed_pieces source).at_border
  generalize hl : ofPiece (0 + Text.size before.flatten) p = l at hends
  have hstart : l.start = Text.size before.flatten := by
    rw [← hl]
    exact Nat.zero_add _
  have hwhole : p = l.text ++ l.terminator := by rw [← hl, ← whole, whole_ofPiece]
  refine ⟨before.flatten, l.terminator ++ after.flatten, ?_, hstart, hbefore, fun c hc => ?_⟩
  · rw [← flatten_pieces source, hpieces]
    simp [hwhole]
  · rw [List.head?_append, Option.mem_def, Option.or_eq_some_iff] at hc
    rcases hc with hc | ⟨hnone, hc⟩
    · exact hends.eq_of_mem_terminator (List.mem_of_head? hc)
    · rw [List.head?_eq_none_iff] at hnone
      rw [hnone, List.append_nil] at hwhole
      rw [hlast (hwhole ▸ hends.not_mem_text)] at hc
      cases hc

/-- A line whose text is replaced is read again as what it is, if the new text does not end in a
carriage return that a lone line feed would join. -/
theorem Ends.ofPiece_eq (h : Ends l) (start : Nat) (ht : '\n' ∉ t)
    (hopen : l.terminator = ['\n'] → t.getLast? ≠ some '\r') :
    ofPiece start (t ++ l.terminator) = ⟨start, t, l.terminator, false⟩ := by
  cases h with
  | last => rw [List.append_nil, ofPiece_of_not_mem ht]
  | lf => exact ofPiece_lf (hopen rfl)
  | crlf => exact ofPiece_crlf start t

/-- Where the lines of a text get other texts, the text is cut into these lines again; only an empty
one at the end is lost. -/
theorem exists_of_mem_ofText_flatMap {source : Text} {f : Line → Text}
    (hnot : ∀ l ∈ ofText source, '\n' ∉ f l)
    (hopen : ∀ l ∈ ofText source, l.terminator = ['\n'] → (f l).getLast? ≠ some '\r')
    (h : l ∈ ofText ((ofText source).flatMap fun k => f k ++ k.terminator)) :
    ∃ k ∈ ofText source, ∃ start, l = ⟨start, f k, k.terminator, false⟩ := by
  have hclosed : Closed ((ofText source).map fun k => f k ++ k.terminator) :=
    (closed_pieces source).map_layOut (List.map_id _) hnot
  rw [ofText, List.flatMap_def, hclosed.pieces_flatten] at h
  obtain ⟨start, p, hp, rfl⟩ := mem_layOut h
  obtain ⟨k, hk, rfl⟩ := List.mem_map.mp (List.mem_filter.mp hp).1
  exact ⟨k, hk, start, (ends_of_mem_ofText hk).ofPiece_eq start (hnot k hk) (hopen k hk)⟩

end Tidymark.Line
