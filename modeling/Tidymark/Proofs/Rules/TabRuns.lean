import Tidymark.Proofs.Rule.Cuts
import Tidymark.Rules.HardTabs

/-! # Runs of tabs

The rule for hard tabs looks for the first tab, counts how many follow, and goes on behind them. No
cut on this way breaks down, and the runs found are those read off the text character by character,
where a tab makes the run behind it longer. -/
namespace Tidymark.Rules.HardTabs

/-- The runs of tabs in a text that starts at `offset`. -/
def tabRuns (offset : Nat) : Text → List Span
  | [] => []
  | c :: t =>
    let rest := tabRuns (offset + c.utf8Size) t
    if c != '\t' then rest
    else match rest with
      | [] => [⟨offset, offset + 1⟩]
      | run :: others =>
        if run.start == offset + 1 then ⟨offset, run.stop⟩ :: others
        else ⟨offset, offset + 1⟩ :: run :: others

/-- The span holds nothing but tabs of the text `t`, which starts at `offset`. -/
def HoldsTabs (offset : Nat) (t : Text) (run : Span) : Prop :=
  ∃ before tabs behind : Text, t = before ++ tabs ++ behind ∧ run.start = offset + before.size ∧
    run.stop = run.start + tabs.size ∧ ∀ c ∈ tabs, c = '\t'

variable {offset : Nat} {t : Text} {run : Span}

theorem holdsTabs_one (offset : Nat) (t : Text) :
    HoldsTabs offset ('\t' :: t) ⟨offset, offset + 1⟩ :=
  ⟨[], ['\t'], t, rfl, rfl, rfl, by simp⟩

theorem HoldsTabs.cons {c : Char} (h : HoldsTabs (offset + c.utf8Size) t run) :
    HoldsTabs offset (c :: t) run := by
  obtain ⟨before, tabs, behind, rfl, hstart, hstop, htabs⟩ := h
  refine ⟨c :: before, tabs, behind, rfl, ?_, hstop, htabs⟩
  rw [hstart, Text.size_cons]
  omega

/-- A run right behind a tab becomes longer by it. -/
theorem HoldsTabs.widen (h : HoldsTabs (offset + 1) t run) (hnext : run.start = offset + 1) :
    HoldsTabs offset ('\t' :: t) ⟨offset, run.stop⟩ := by
  obtain ⟨before, tabs, behind, rfl, hstart, hstop, htabs⟩ := h
  have hone : '\t'.utf8Size = 1 := rfl
  obtain rfl : before = [] := Text.size_eq_zero.mp (by omega)
  refine ⟨[], '\t' :: tabs, behind, rfl, rfl, ?_, ?_⟩
  · simp only [Text.size_cons]
    omega
  · intro c hc
    rcases List.mem_cons.mp hc with rfl | hc
    · rfl
    · exact htabs c hc

theorem holdsTabs_of_mem_tabRuns (h : run ∈ tabRuns offset t) : HoldsTabs offset t run := by
  induction t generalizing offset run with
  | nil => cases h
  | cons c t ih =>
    simp only [tabRuns] at h
    split at h
    · exact (ih h).cons
    · rename_i hc
      obtain rfl : c = '\t' := by simpa using hc
      split at h
      · obtain rfl := List.mem_singleton.mp h
        exact holdsTabs_one offset t
      · rename_i first others hruns
        have hfirst := ih (hruns ▸ List.mem_cons_self)
        split at h
        · rename_i hnext
          rcases List.mem_cons.mp h with rfl | h
          · exact hfirst.widen (by simpa using hnext)
          · exact (ih (hruns ▸ List.mem_cons_of_mem first h)).cons
        · rcases List.mem_cons.mp h with rfl | h
          · exact holdsTabs_one offset t
          · exact (ih (hruns ▸ h)).cons

/-- A text cut into other characters and whole runs of `k + 1` tabs. -/
inductive Cut : Text → Prop
  | nil : Cut []
  | other {c : Char} {t : Text} (hc : c ≠ '\t') (tail : Cut t) : Cut (c :: t)
  | tabs (k : Nat) {t : Text} (hbehind : t.head? ≠ some '\t') (tail : Cut t) :
      Cut (List.replicate (k + 1) '\t' ++ t)

theorem cut (t : Text) : Cut t := by
  induction t with
  | nil => exact .nil
  | cons c t ih =>
    by_cases hc : c = '\t'
    · subst hc
      cases ih with
      | nil => exact .tabs 0 (by simp) .nil
      | other hd tail => exact .tabs 0 (by simpa using hd) (.other hd tail)
      | tabs k hbehind tail => exact .tabs (k + 1) hbehind tail
    · exact .other hc ih

theorem size_replicate_tab (k : Nat) : Text.size (List.replicate k '\t') = k := by
  rw [Text.size_eq_length, List.length_replicate]
  intro c hc
  rw [List.eq_of_mem_replicate hc]
  rfl

theorem tabRuns_other {c : Char} (hc : c ≠ '\t') (offset : Nat) (t : Text) :
    tabRuns offset (c :: t) = tabRuns (offset + c.utf8Size) t := by
  simp [tabRuns, hc]

/-- No run starts at the start of a text that does not start with a tab. -/
theorem lt_start_of_mem_tabRuns (ht : t.head? ≠ some '\t') (h : run ∈ tabRuns offset t) :
    offset < run.start := by
  cases t with
  | nil => cases h
  | cons c t =>
    rw [tabRuns_other (by simpa using ht)] at h
    obtain ⟨before, -, -, -, hstart, -⟩ := holdsTabs_of_mem_tabRuns h
    have hc := c.utf8Size_pos
    omega

/-- Tabs behind which no tab stands are one run. -/
theorem tabRuns_tabs (ht : t.head? ≠ some '\t') (offset k : Nat) :
    tabRuns offset (List.replicate (k + 1) '\t' ++ t) =
      ⟨offset, offset + (k + 1)⟩ :: tabRuns (offset + (k + 1)) t := by
  have hone : '\t'.utf8Size = 1 := rfl
  induction k generalizing offset with
  | zero =>
    rw [List.replicate_one, List.singleton_append, tabRuns, hone]
    simp only [bne_self_eq_false, Bool.false_eq_true, if_false]
    cases hruns : tabRuns (offset + 1) t with
    | nil => rfl
    | cons first others =>
      have hfirst := lt_start_of_mem_tabRuns ht (hruns ▸ List.mem_cons_self)
      have hne : (first.start == offset + 1) = false := by
        rw [beq_eq_false_iff_ne]
        omega
      simp only [hne, Bool.false_eq_true, if_false]
  | succ k ih =>
    rw [List.replicate_succ, List.cons_append, tabRuns, hone, ih (offset + 1)]
    simp [Nat.add_assoc, Nat.add_comm 1]

theorem tabRuns_add (offset start : Nat) (t : Text) :
    tabRuns (start + offset) t =
      (tabRuns offset t).map fun run => ⟨start + run.start, start + run.stop⟩ := by
  induction cut t generalizing offset with
  | nil => rfl
  | other hc tail ih => rw [tabRuns_other hc, tabRuns_other hc, Nat.add_assoc, ih]
  | tabs k hbehind tail ih =>
    rw [tabRuns_tabs hbehind, tabRuns_tabs hbehind, List.map_cons, Nat.add_assoc, ih]

section
variable {text rest front s : Text}

theorem firstRun?_eq_none (h : '\t' ∉ s) : firstRun? s = .ok none := by
  rw [firstRun?, Text.find?_eq_none h]

/-- The first run stands behind characters that are no tabs, and before one that is none. -/
theorem firstRun?_append {t : Text} (h : '\t' ∉ s) (ht : t.head? ≠ some '\t') (k : Nat) :
    firstRun? (s ++ (List.replicate (k + 1) '\t' ++ t)) =
      .ok (some ⟨s.size, s.size + (k + 1)⟩) := by
  have hcount : ((List.replicate (k + 1) '\t' ++ t).takeWhile (· == '\t')).length = k + 1 := by
    rw [List.takeWhile_append_of_pos (by simp)]
    cases t with
    | nil => simp
    | cons c t => simpa using ht
  have hfind : Text.find? '\t' (s ++ (List.replicate (k + 1) '\t' ++ t)) = some s.size :=
    Text.find?_append h (List.replicate k '\t' ++ t)
  rw [firstRun?, hfind]
  dsimp only
  rw [Text.dropBytes_size_append]
  exact congrArg (fun n => Except.ok (some (Span.mk s.size (s.size + n)))) hcount

theorem runsFrom_of_none {offset : Nat} (hrest : text.dropBytes offset = .ok rest)
    (hrun : firstRun? rest = .ok none) : runsFrom text offset = .ok [] := by
  rw [runsFrom]
  split
  · rename_i herror
    cases hrest.symm.trans herror
  · rename_i hfound
    obtain rfl := Except.ok.inj (hrest.symm.trans hfound)
    split
    · rename_i herror
      cases hrun.symm.trans herror
    · rfl
    · rename_i hsome
      cases hrun.symm.trans hsome

theorem runsFrom_of_some {offset : Nat} (hrest : text.dropBytes offset = .ok rest)
    (hrun : firstRun? rest = .ok (some run)) :
    runsFrom text offset = (runsFrom text (offset + run.stop)).map
      (⟨offset + run.start, offset + run.stop⟩ :: ·) := by
  rw [runsFrom]
  split
  · rename_i herror
    cases hrest.symm.trans herror
  · rename_i hfound
    obtain rfl := Except.ok.inj (hrest.symm.trans hfound)
    split
    · rename_i herror
      cases hrun.symm.trans herror
    · rename_i hnone
      cases hrun.symm.trans hnone
    · rename_i hsome
      obtain rfl := Option.some.inj (Except.ok.inj (hrun.symm.trans hsome))
      cases runsFrom text (offset + run.stop) <;> rfl

/-- What the rule finds from an offset on, behind some characters that are no tabs. -/
theorem runsFrom_append (front s : Text) (h : '\t' ∉ s) :
    runsFrom (front ++ (s ++ rest)) front.size = .ok (tabRuns (front.size + s.size) rest) := by
  induction cut rest generalizing front s with
  | nil =>
    rw [List.append_nil]
    exact runsFrom_of_none (Text.dropBytes_size_append front s) (firstRun?_eq_none h)
  | @other c t hc tail ih =>
    have hs : '\t' ∉ s ++ [c] := by simp [h, Ne.symm hc]
    have hnext := ih front _ hs
    rw [List.append_assoc, List.singleton_append, Text.size_append, Text.size_cons, Text.size_nil,
      Nat.add_zero, ← Nat.add_assoc] at hnext
    rw [tabRuns_other hc, hnext]
  | @tabs k t hbehind tail ih =>
    have hnext := ih (front ++ s ++ List.replicate (k + 1) '\t') [] (by simp)
    simp only [List.nil_append, List.append_assoc, Text.size_append, size_replicate_tab,
      Text.size_nil, Nat.add_zero] at hnext
    rw [runsFrom_of_some (Text.dropBytes_size_append front _) (firstRun?_append h hbehind k),
      hnext, tabRuns_tabs hbehind]
    simp only [Except.map, Nat.add_assoc]

theorem runsFrom_zero (text : Text) : runsFrom text 0 = .ok (tabRuns 0 text) :=
  runsFrom_append [] [] (by simp)

end

end Tidymark.Rules.HardTabs
