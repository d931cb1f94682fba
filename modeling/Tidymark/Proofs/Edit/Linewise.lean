import Tidymark.Proofs.Edit.Bundle
import Tidymark.Proofs.Edit.Order
import Tidymark.Proofs.Line.Position

/-! # Edits line by line

Edits that stand in their order and apart make up a plan as they are. So what is done to a text line
by line is put together from what is done to each line. -/
namespace Tidymark.EditPlan

variable {n : Nat} {before t t' rest out out' content : Text} {e : Edit} {edits edits' : List Edit}

theorem Turns.prepend (h : Turns (n + before.size) t edits out) :
    Turns n (before ++ t) edits (before ++ out) := by
  cases h with
  | done => exact .done _ _
  | @edit _ e edits gap removed rest out hstart hstop tail =>
    have hstart' : e.start = n + (before ++ gap).size := by
      rw [hstart, Text.size_append, Nat.add_assoc]
    simpa using Turns.edit hstart' hstop tail

theorem Turns.append (h : Turns n t edits out) (h' : Turns (n + t.size) t' edits' out') :
    Turns n (t ++ t') (edits ++ edits') (out ++ out') := by
  induction h with
  | done n rest => exact h'.prepend
  | @edit n e edits gap removed rest out hstart hstop tail ih =>
    have hsize : n + (gap ++ removed ++ rest).size = e.stop + rest.size := by
      simp only [Text.size_append]
      omega
    rw [hsize] at h'
    simpa using Turns.edit hstart hstop (ih h')

/-- What is done to the lines of a text, each with what else is known of it. -/
theorem turns_of_tiles {α : Type} {line : α → Line} {items : List α}
    (h : Line.Tiles n t (items.map line)) {edits : α → List Edit} {out : α → Text}
    (hline : ∀ a ∈ items, Turns (line a).start (line a).whole (edits a) (out a)) :
    Turns n t (items.flatMap edits) (items.flatMap out) := by
  induction items generalizing n t with
  | nil =>
    cases h
    exact .done n []
  | cons a items ih =>
    generalize hl : line a = l at h
    cases h with
    | cons tail =>
      subst hl
      rw [Line.stop_eq] at tail
      exact (hline a (by simp)).append (ih tail fun b hb => hline b (by simp [hb]))

/-- Edits that start behind the start of their line, and not behind its end, start one after another
if they do so on each line. -/
theorem strict_of_tiles {α : Type} {line : α → Line} {items : List α}
    (h : Line.Tiles n t (items.map line)) {edits : α → List Edit}
    (hline : ∀ a ∈ items, (edits a).Pairwise fun e f => e.start < f.start)
    (hwithin : ∀ a ∈ items, ∀ e ∈ edits a, (line a).start < e.start ∧ e.start ≤ (line a).stop) :
    (items.flatMap edits).Pairwise fun e f => e.start < f.start := by
  refine List.pairwise_flatMap.mpr ⟨hline, ?_⟩
  refine (List.pairwise_map.mp h.apart).imp_of_mem fun {a b} ha hb hab e he f hf => ?_
  have hfirst := (hwithin a ha e he).2
  have hsecond := (hwithin b hb f hf).1
  omega

/-- To delete the characters of a class at the end of a text. -/
theorem turns_trimEndBy (q : Char → Bool) (n : Nat) (t rest : Text) :
    Turns n (t ++ rest) [.deleteSpan ⟨n + Text.size (Text.trimEndBy q t), n + t.size⟩]
      (Text.trimEndBy q t ++ rest) := by
  obtain ⟨s, hs, -⟩ := Text.exists_eq_trimEndBy_append q t
  have hsize := congrArg Text.size hs
  rw [Text.size_append] at hsize
  have hstop : n + t.size = n + Text.size (Text.trimEndBy q t) + Text.size s := by omega
  have h : Turns n (Text.trimEndBy q t ++ s ++ rest)
      [.deleteSpan ⟨n + Text.size (Text.trimEndBy q t), n + t.size⟩]
      (Text.trimEndBy q t ++ [] ++ rest) := .edit rfl hstop (.done _ rest)
  rw [← hs] at h
  simpa using h

theorem Turns.fits (h : Turns before.size rest edits out) :
    ∀ e ∈ edits, e.Fits (before ++ rest) := by
  generalize hn : before.size = n at h
  induction h generalizing before with
  | done => simp
  | @edit n e edits gap removed rest out hstart hstop tail ih =>
    subst hn
    have hstart' : (before ++ gap).size = e.start := by rw [hstart, Text.size_append]
    have hstop' : (before ++ gap ++ removed).size = e.stop := by
      rw [Text.size_append, hstart', hstop]
    refine List.forall_mem_cons.mpr ⟨⟨by omega, ?_, ?_, ?_⟩, ?_⟩
    · simp only [Text.size_append] at hstop' ⊢
      omega
    · exact Text.isBoundary_iff.mpr ⟨before ++ gap, removed ++ rest, by simp, hstart'⟩
    · exact Text.isBoundary_iff.mpr ⟨before ++ gap ++ removed, rest, by simp, hstop'⟩
    · have hrest := ih hstop'
      simpa using hrest

theorem Turns.apart (h : Turns n t edits out) : edits.Pairwise fun e f => e.stop ≤ f.start := by
  induction h with
  | done => exact .nil
  | edit hstart hstop tail ih => exact .cons tail.start_le ih

/-- Of edits that are free, some of which may stand there again, the plan takes those that stand in
their order, each once. -/
theorem prepareStrictly_of_mem_iff {listed : List Edit} (h : Turns 0 content edits out)
    (hstrict : edits.Pairwise fun e f => e.start < f.start) (hfree : Edit.Free listed)
    (hsame : ∀ e, e ∈ listed ↔ e ∈ edits) :
    prepareStrictly content listed = .ok (ofEdits listed) ∧ (ofEdits listed).accepted = edits ∧
      (ofEdits listed).applyTo? content = some out := by
  have hfits : ∀ e ∈ listed, e.Fits content := fun e he =>
    @Turns.fits [] _ _ _ h e ((hsame e).mp he)
  obtain ⟨hskipped, hrepeated⟩ := ofEdits_of_free hfree
  have hmem : ∀ e, e ∈ (ofEdits listed).accepted ↔ e ∈ edits := fun e => by
    rw [hrepeated, List.mem_eraseDups, List.mem_mergeSort, hsame]
  have hwell := wellFormed_ofEdits hfits
  have hdistinct : edits.Nodup := hstrict.imp fun {e f} hlt hef => by simp [hef] at hlt
  have hsorted : edits.Pairwise fun e f => e.atMost f = true := hstrict.imp fun {e f} hlt => by
    rw [Edit.atMost_iff]
    exact .inl hlt
  have haccepted : (ofEdits listed).accepted = edits := by
    refine ((List.perm_ext_iff_of_nodup hwell.distinct hdistinct).mpr hmem).eq_of_pairwise
      (fun e f he hf hef hfe => ?_) hwell.sorted hsorted
    rw [Edit.atMost_iff] at hef hfe
    rcases eq_or_of_pairwise hstrict ((hmem e).mp he) hf with hsame | hlt | hlt
    · exact hsame
    · omega
    · omega
  refine ⟨prepareStrictly_eq_ok_iff.mpr ⟨prepare_eq_ok_iff.mpr ⟨hfits, rfl⟩, hskipped⟩, haccepted, ?_⟩
  rw [applyTo?, haccepted]
  have happly : applyFrom ([] ++ content) (Text.size []) edits = some out := Turns.applyFrom h
  exact happly

/-- Edits in their order, each with some bytes of its own, are all accepted and stay as they are. -/
theorem prepareStrictly_of_turns (h : Turns 0 content edits out)
    (htakes : ∀ e ∈ edits, e.start ≠ e.stop) :
    prepareStrictly content edits = .ok (ofEdits edits) ∧ (ofEdits edits).accepted = edits ∧
      (ofEdits edits).applyTo? content = some out := by
  have hproper : ∀ e ∈ edits, e.start < e.stop := fun e he =>
    Nat.lt_of_le_of_ne (@Turns.fits [] _ _ _ h e he).start_le_stop (htakes e he)
  have happart := h.apart
  have hfree : Edit.Free edits := by
    refine ⟨fun e he => Nat.le_of_lt (hproper e he), happart.imp fun {e f} hef => ?_⟩
    rw [← Bool.not_eq_true, Edit.conflicts_iff]
    omega
  have hstrict : edits.Pairwise fun e f => e.start < f.start :=
    happart.imp_of_mem fun {e f} he _ hef => (hproper e he).trans_le hef
  exact prepareStrictly_of_mem_iff h hstrict hfree fun _ => Iff.rfl

theorem exists_plan_of_turn (h : Turns 0 content [e] out) :
    ∃ plan, prepareStrictly content [e] = .ok plan ∧ plan.applyTo? content = some out := by
  have hproper : ∀ f ∈ [e], f.start ≤ f.stop := fun f hf =>
    (@Turns.fits [] _ _ _ h f hf).start_le_stop
  obtain ⟨hplan, -, happly⟩ := prepareStrictly_of_mem_iff h (List.pairwise_singleton _ _)
    ⟨hproper, List.pairwise_singleton _ _⟩ fun _ => Iff.rfl
  exact ⟨_, hplan, happly⟩

/-- Insertions for the lines of a text, one behind another, make up a plan. -/
theorem exists_plan_of_insertions {α : Type} {line : α → Line} {items : List α}
    (h : Line.Tiles 0 content (items.map line)) {edits : α → List Edit} {out : α → Text}
    (hline : ∀ a ∈ items, Turns (line a).start (line a).whole (edits a) (out a))
    (hstrict : ∀ a ∈ items, (edits a).Pairwise fun e f => e.start < f.start)
    (hwithin : ∀ a ∈ items, ∀ e ∈ edits a,
      e.start = e.stop ∧ (line a).start < e.start ∧ e.start ≤ (line a).stop) :
    ∃ plan, prepareStrictly content (items.flatMap edits) = .ok plan ∧
      plan.applyTo? content = some (items.flatMap out) := by
  have hinserts : ∀ e ∈ items.flatMap edits, e.start = e.stop := fun e he => by
    obtain ⟨a, ha, he⟩ := List.mem_flatMap.mp he
    exact (hwithin a ha e he).1
  obtain ⟨hplan, -, happly⟩ := prepareStrictly_of_mem_iff (turns_of_tiles h hline)
    (strict_of_tiles h hstrict fun a ha e he => (hwithin a ha e he).2)
    (Edit.free_of_insertions hinserts) fun _ => Iff.rfl
  exact ⟨_, hplan, happly⟩

/-- Edits for the lines of a text, each with some bytes of its own, make up a plan. -/
theorem exists_plan_of_tiles {α : Type} {line : α → Line} {items : List α}
    (h : Line.Tiles 0 content (items.map line)) {edits : α → List Edit} {out : α → Text}
    (hline : ∀ a ∈ items, Turns (line a).start (line a).whole (edits a) (out a))
    (htakes : ∀ a ∈ items, ∀ e ∈ edits a, e.start ≠ e.stop) :
    ∃ plan, prepareStrictly content (items.flatMap edits) = .ok plan ∧
      plan.applyTo? content = some (items.flatMap out) := by
  have htakes : ∀ e ∈ items.flatMap edits, e.start ≠ e.stop := by
    intro e he
    obtain ⟨a, ha, he⟩ := List.mem_flatMap.mp he
    exact htakes a ha e he
  obtain ⟨hplan, -, happly⟩ := prepareStrictly_of_turns (turns_of_tiles h hline) htakes
  exact ⟨_, hplan, happly⟩

end Tidymark.EditPlan
