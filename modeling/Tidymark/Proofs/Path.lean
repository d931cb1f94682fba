import Tidymark.Path

/-! # Components of paths

The order of paths is that of their components. A dot is a component at the start of a path only, so
two paths that lead the same way differ at most there. -/
namespace Tidymark.Path

namespace Component

variable {a b c : Component}

theorem before_iff : a.before b = true ↔
    a.rank < b.rank ∨ ∃ m n, a = name m ∧ b = name n ∧ m < n := by
  cases a <;> cases b <;> grind [before, rank]

theorem eq_or_names_of_rank_eq (h : a.rank = b.rank) :
    a = b ∨ ∃ m n, a = name m ∧ b = name n := by
  cases a <;> cases b <;> grind [rank]

theorem before_trans (h : a.before b = true) (h' : b.before c = true) : a.before c = true := by
  rw [before_iff] at *
  rcases h with h | ⟨m, n, rfl, rfl, hmn⟩
  · rcases h' with h' | ⟨k, l, rfl, rfl, -⟩
    · exact .inl (Nat.lt_trans h h')
    · exact .inl h
  · rcases h' with h' | ⟨_, l, hn, rfl, hnl⟩
    · exact .inl h'
    · obtain rfl := name.inj hn
      exact .inr ⟨m, l, rfl, rfl, String.lt_trans hmn hnl⟩

theorem not_before_self (a : Component) : ¬ a.before a = true := by
  intro h
  rcases before_iff.mp h with h | ⟨m, n, rfl, hmn, h⟩
  · exact Nat.lt_irrefl _ h
  · obtain rfl := name.inj hmn
    exact String.lt_irrefl m h

theorem before_trichotomous (a b : Component) :
    a.before b = true ∨ a = b ∨ b.before a = true := by
  rw [before_iff, before_iff]
  rcases Nat.lt_trichotomy a.rank b.rank with hlt | heq | hgt
  · exact .inl (.inl hlt)
  · rcases eq_or_names_of_rank_eq heq with hsame | ⟨m, n, rfl, rfl⟩
    · exact .inr (.inl hsame)
    · by_cases hmn : m < n
      · exact .inl (.inr ⟨m, n, rfl, rfl, hmn⟩)
      · by_cases hnm : n < m
        · exact .inr (.inr (.inr ⟨n, m, rfl, rfl, hnm⟩))
        · have hsame := String.le_antisymm (String.not_lt.mp hnm) (String.not_lt.mp hmn)
          exact .inr (.inl (congrArg name hsame))
  · exact .inr (.inr (.inl hgt))

end Component

section
variable {a b : Component} {s t u : List Component}

theorem atMostList_cons_cons : atMostList (a :: s) (b :: t) = true ↔
    a.before b = true ∨ a = b ∧ atMostList s t = true := by
  simp [atMostList]

theorem atMostList_trans (h : atMostList s t = true) (h' : atMostList t u = true) :
    atMostList s u = true := by
  induction s generalizing t u with
  | nil => rfl
  | cons a s ih =>
    cases t with
    | nil => cases h
    | cons b t =>
      cases u with
      | nil => cases h'
      | cons c u =>
        rw [atMostList_cons_cons] at *
        rcases h with hab | ⟨rfl, hst⟩
        · rcases h' with hbc | ⟨rfl, -⟩
          · exact .inl (Component.before_trans hab hbc)
          · exact .inl hab
        · rcases h' with hac | ⟨rfl, htu⟩
          · exact .inl hac
          · exact .inr ⟨rfl, ih hst htu⟩

theorem atMostList_total (s t : List Component) :
    atMostList s t = true ∨ atMostList t s = true := by
  induction s generalizing t with
  | nil => exact .inl rfl
  | cons a s ih =>
    cases t with
    | nil => exact .inr rfl
    | cons b t =>
      rw [atMostList_cons_cons, atMostList_cons_cons]
      rcases Component.before_trichotomous a b with hab | rfl | hba
      · exact .inl (.inl hab)
      · rcases ih t with hst | hts
        · exact .inl (.inr ⟨rfl, hst⟩)
        · exact .inr (.inr ⟨rfl, hts⟩)
      · exact .inr (.inl hba)

theorem atMostList_refl (s : List Component) : atMostList s s = true :=
  (atMostList_total s s).elim id id

theorem atMostList_antisymm (h : atMostList s t = true) (h' : atMostList t s = true) :
    s = t := by
  induction s generalizing t with
  | nil =>
    cases t with
    | nil => rfl
    | cons b t => cases h'
  | cons a s ih =>
    cases t with
    | nil => cases h
    | cons b t =>
      rw [atMostList_cons_cons] at *
      rcases h with hab | ⟨rfl, hst⟩
      · rcases h' with hba | ⟨rfl, -⟩
        · exact absurd (Component.before_trans hab hba) (Component.not_before_self a)
        · exact absurd hab (Component.not_before_self _)
      · rcases h' with haa | ⟨-, hts⟩
        · exact absurd haa (Component.not_before_self a)
        · rw [ih hst hts]

end

theorem atMost_trans (p q r : String) (h : atMost p q = true) (h' : atMost q r = true) :
    atMost p r = true :=
  atMostList_trans h h'

theorem atMost_total (p q : String) : (atMost p q || atMost q p) = true :=
  Bool.or_eq_true_iff.mpr (atMostList_total (components p) (components q))

theorem same_of_atMost (p q : String) (h : atMost p q = true) (h' : atMost q p = true) :
    same p q = true :=
  beq_iff_eq.mpr (atMostList_antisymm h h')

theorem same_refl (p : String) : same p p = true := beq_self_eq_true _

theorem same_trans (p q r : String) (h : same p q = true) (h' : same q r = true) :
    same p r = true :=
  beq_iff_eq.mpr ((eq_of_beq h).trans (eq_of_beq h'))

/-- The way that a path leads: dots count for nothing. -/
def steps (path : String) : List Component := (components path).filter (· != .here)

/-- Whether a path is written with a dot at the start. -/
def isDotted (path : String) : Bool := (components path).head? == some .here

theorem isDotted_of_components {p : String} {rest : List Component}
    (h : components p = .here :: rest) : isDotted p = true := by
  rw [isDotted, h]
  rfl

theorem componentOf?_ne_here (piece : List Char) : componentOf? piece ≠ some .here := by
  unfold componentOf?
  split <;> simp

/-- A dot is a component at the start only. -/
theorem here_not_mem_filterMap (pieces : List (List Char)) :
    Component.here ∉ pieces.filterMap componentOf? := by
  intro hmem
  obtain ⟨piece, -, hpiece⟩ := List.mem_filterMap.mp hmem
  exact componentOf?_ne_here piece hpiece

theorem head?_filterMap_ne_here (pieces : List (List Char)) :
    (pieces.filterMap componentOf?).head? ≠ some .here :=
  fun h => here_not_mem_filterMap pieces (List.mem_of_head? h)

theorem components_eq (path : String) :
    components path = if isDotted path then .here :: steps path else steps path := by
  have hkept : ((pieces path.toList).filterMap componentOf?).filter (· != .here) =
      (pieces path.toList).filterMap componentOf? :=
    List.filter_eq_self.mpr fun c hc =>
      bne_iff_ne.mpr fun hhere => here_not_mem_filterMap _ (hhere ▸ hc)
  unfold isDotted steps components
  split
  · simp [hkept]
  · split
    · simp [hkept]
    · have hhead := head?_filterMap_ne_here (pieces path.toList)
      simp only [List.nil_append, hkept, beq_eq_false_iff_ne.mpr hhead, Bool.false_eq_true,
        if_false]

theorem head?_pieces (path : List Char) :
    (pieces path).head? = some (path.takeWhile (· != '/')) := by
  induction path with
  | nil => rfl
  | cons c path ih =>
    obtain ⟨piece, others, hpieces⟩ : ∃ piece others, pieces path = piece :: others := by
      cases hpath : pieces path with
      | nil => simp [hpath] at ih
      | cons piece others => exact ⟨piece, others, rfl⟩
    by_cases hc : c = '/'
    · simp [pieces, hc]
    · have hpiece : piece = path.takeWhile (· != '/') := by simpa [hpieces] using ih
      simp [pieces, hc, hpieces, hpiece]

theorem takeWhile_eq_dot_iff {path : List Char} : path.takeWhile (· != '/') = ['.'] ↔
    path = ['.'] ∨ ∃ rest, path = '.' :: '/' :: rest := by
  rcases path with _ | ⟨c, _ | ⟨d, path⟩⟩
  · simp
  · by_cases hc : c = '/' <;> simp [hc]
  · by_cases hc : c = '/' <;> by_cases hd : d = '/' <;> simp [hc, hd]

/-- A path is written with a dot at the start if it is a dot, or a dot and a slash begin it. -/
theorem isDotted_iff {path : String} :
    isDotted path = true ↔ path.toList = ['.'] ∨ ∃ rest, path.toList = '.' :: '/' :: rest := by
  rw [← takeWhile_eq_dot_iff]
  have hfirst : (pieces path.toList).head? = some ['.'] ↔
      path.toList.takeWhile (· != '/') = ['.'] := by rw [head?_pieces, Option.some_inj]
  rw [← hfirst, isDotted, components]
  split
  · rename_i habsolute
    obtain ⟨rest, hpath⟩ : ∃ rest, path.toList = '/' :: rest :=
      List.head?_eq_some_iff.mp (eq_of_beq habsolute)
    simp [hpath, pieces]
  · split
    · rename_i hdot
      simpa using hdot
    · rename_i hdot
      have hhead := head?_filterMap_ne_here (pieces path.toList)
      exact iff_of_false (by simpa only [List.nil_append, beq_iff_eq] using hhead)
        (by simpa only [beq_iff_eq] using hdot)

theorem isDotted_skip (path : List Char) : isDotted (String.ofList (skip path)) = false := by
  fun_induction skip path with
  | case1 rest ih => exact ih
  | case2 => decide
  | case3 rest ih => exact ih
  | case4 path _ hdot hslash =>
    refine Bool.eq_false_iff.mpr fun h => ?_
    rw [isDotted_iff, String.toList_ofList] at h
    rcases h with rfl | ⟨rest, rfl⟩
    · exact hdot rfl
    · exact hslash rest rfl

/-- Seen from the directory `.`, a path loses a dot at its start. -/
theorem strip?_dot (path : String) : strip? "." path =
    if isDotted path then some (String.ofList (skip (path.toList.drop 1))) else none := by
  have hbase : components "." = [.here] := by decide
  have hpiece (piece : List Char) : (componentOf? piece == some .here) = false :=
    beq_eq_false_iff_ne.mpr (componentOf?_ne_here piece)
  rw [strip?, hbase]
  by_cases hdotted : isDotted path = true
  · rw [if_pos hdotted]
    rcases isDotted_iff.mp hdotted with h | ⟨rest, h⟩
    · simp [h, dropComponents]
    · simp [h, dropComponents]
  · rw [if_neg hdotted]
    rw [isDotted_iff] at hdotted
    unfold dropComponents
    grind

theorem isDotted_getD_strip? (path : String) : isDotted ((strip? "." path).getD path) = false := by
  rw [strip?_dot]
  split
  · exact isDotted_skip _
  · rename_i h
    exact Bool.eq_false_iff.mpr h

end Tidymark.Path
