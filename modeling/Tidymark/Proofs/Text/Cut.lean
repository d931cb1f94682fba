import Mathlib.Data.List.Basic
import Mathlib.Data.List.TakeWhile
import Tidymark.Text

/-! # Cutting texts

Where a text is cut at a byte offset, it is a text of that many bytes followed by the rest. All
facts about offsets are read off such splits: a split is determined by the size of its first
part. -/
namespace Tidymark.Text

theorem size_pos_of_ne_nil {t : Text} (h : t ≠ []) : 0 < size t := by
  cases t with
  | nil => exact absurd rfl h
  | cons c t =>
    have := c.utf8Size_pos
    simp only [size_cons]
    omega

@[simp] theorem size_eq_zero {t : Text} : size t = 0 ↔ t = [] := by
  constructor
  · intro h
    by_contra hne
    have := size_pos_of_ne_nil hne
    omega
  · rintro rfl
    rfl

/-- One character takes one byte where all characters are below 128. -/
theorem size_eq_length {t : Text} (h : ∀ c ∈ t, c.utf8Size = 1) : size t = t.length := by
  induction t with
  | nil => rfl
  | cons c t ih =>
    rw [size_cons, h c (by simp), ih fun d hd => h d (by simp [hd]), List.length_cons]
    omega

theorem size_takeWhile {q : Char → Bool} (h : ∀ c, q c = true → c.utf8Size = 1) (t : Text) :
    size (t.takeWhile q) = (t.takeWhile q).length :=
  size_eq_length fun c hc => h c (List.mem_takeWhile_imp hc)

theorem utf8Size_of_isSpaceOrTab {c : Char} (h : isSpaceOrTab c = true) : c.utf8Size = 1 := by
  simp only [isSpaceOrTab, Bool.or_eq_true, beq_iff_eq] at h
  rcases h with rfl | rfl <;> rfl

theorem utf8Size_of_eq_hash {c : Char} (h : (c == '#') = true) : c.utf8Size = 1 := by
  rw [beq_iff_eq.mp h]
  rfl

/-- Of two first parts of a text, the one that is no longer is a first part of the other. -/
theorem exists_append_of_size_le {a b c d : Text} (h : a ++ b = c ++ d) (hs : size a ≤ size c) :
    ∃ e, c = a ++ e ∧ b = e ++ d := by
  rcases List.append_eq_append_iff.mp h with ⟨e, hc, hb⟩ | ⟨e, ha, hd⟩
  · exact ⟨e, hc, hb⟩
  · have he : e = [] := by
      rw [ha, size_append] at hs
      exact size_eq_zero.mp (by omega)
    subst he
    exact ⟨[], by simpa using ha.symm, by simpa using hd.symm⟩

/-- A character that stands before the end of a first part of a text stands in it. -/
theorem exists_split_of_size_lt {a b c d : Text} {x : Char} (h : a ++ x :: b = c ++ d)
    (hlt : size a < size c) : ∃ e, c = a ++ x :: e := by
  obtain ⟨e, rfl, he⟩ := exists_append_of_size_le h (Nat.le_of_lt hlt)
  cases e with
  | nil => simp at hlt
  | cons y e =>
    obtain ⟨rfl, -⟩ := List.cons.inj he
    exact ⟨e, rfl⟩

theorem drop?_eq_some_iff {n : Nat} {t r : Text} :
    drop? n t = some r ↔ ∃ a, t = a ++ r ∧ size a = n := by
  constructor
  · intro h
    induction t generalizing n with
    | nil =>
      cases n with
      | zero => exact ⟨[], by simpa using h, rfl⟩
      | succ n => simp [drop?] at h
    | cons c t ih =>
      cases n with
      | zero => exact ⟨[], by simpa using h, rfl⟩
      | succ n =>
        simp only [drop?] at h
        split at h
        · obtain ⟨a, rfl, hs⟩ := ih h
          exact ⟨c :: a, rfl, by rw [size_cons]; omega⟩
        · cases h
  · rintro ⟨a, rfl, rfl⟩
    exact drop?_size_append a r

theorem take?_size_append (a b : Text) : take? (size a) (a ++ b) = some a := by
  induction a with
  | nil => simp
  | cons c a ih =>
    have hc := c.utf8Size_pos
    obtain ⟨n, hn⟩ : ∃ n, c.utf8Size + size a = n + 1 := ⟨c.utf8Size + size a - 1, by omega⟩
    simp only [List.cons_append, size_cons, hn, take?]
    rw [if_pos (by omega), show n + 1 - c.utf8Size = size a by omega, ih, Option.map_some]

theorem take?_eq_some_iff {n : Nat} {t a : Text} :
    take? n t = some a ↔ ∃ b, t = a ++ b ∧ size a = n := by
  constructor
  · intro h
    induction t generalizing n a with
    | nil =>
      cases n with
      | zero => exact ⟨[], by simpa [eq_comm] using h, by simp_all⟩
      | succ n => simp [take?] at h
    | cons c t ih =>
      cases n with
      | zero =>
        obtain rfl : [] = a := by simpa using h
        exact ⟨c :: t, rfl, rfl⟩
      | succ n =>
        simp only [take?] at h
        split at h
        · obtain ⟨a', ha', rfl⟩ := Option.map_eq_some_iff.mp h
          obtain ⟨b, rfl, hs⟩ := ih ha'
          exact ⟨b, rfl, by rw [size_cons]; omega⟩
        · cases h
  · rintro ⟨b, rfl, rfl⟩
    exact take?_size_append a b

section
variable {c : Char} {s t : Text}

theorem find?_eq_none (h : c ∉ t) : find? c t = none := by
  induction t with
  | nil => rfl
  | cons d t ih =>
    rw [List.mem_cons, not_or] at h
    rw [find?, if_neg (by simpa using Ne.symm h.1), ih h.2, Option.map_none]

theorem find?_append (h : c ∉ s) (t : Text) : find? c (s ++ c :: t) = some s.size := by
  induction s with
  | nil => simp [find?]
  | cons d s ih =>
    rw [List.mem_cons, not_or] at h
    rw [List.cons_append, find?, if_neg (by simpa using Ne.symm h.1), ih h.2, Option.map_some,
      size_cons, Nat.add_comm]

theorem rfind?_eq_none (h : c ∉ t) : rfind? c t = none := by
  induction t with
  | nil => rfl
  | cons d t ih =>
    rw [List.mem_cons, not_or] at h
    rw [rfind?, ih h.2]
    simpa using Ne.symm h.1

theorem rfind?_append (s : Text) (h : c ∉ t) : rfind? c (s ++ c :: t) = some s.size := by
  induction s with
  | nil => simp [rfind?, rfind?_eq_none h]
  | cons d s ih => rw [List.cons_append, rfind?, ih, size_cons, Nat.add_comm]

end

/-- What is left of a text behind which a class is dropped is a first part of it. -/
theorem trimEndBy_isPrefix (q : Char → Bool) (t : Text) : trimEndBy q t <+: t := by
  obtain ⟨s, hs, -⟩ := exists_eq_trimEndBy_append q t
  exact ⟨s, hs.symm⟩

/-- A first part of a text with as many bytes is the text. -/
theorem size_eq_iff_of_isPrefix {p t : Text} (h : p <+: t) :
    size p = size t ↔ p.length = t.length := by
  obtain ⟨s, rfl⟩ := h
  rw [size_append, List.length_append, Nat.left_eq_add, Nat.left_eq_add, size_eq_zero,
    List.length_eq_zero_iff]

/-- A slice is the middle of a text in three parts. -/
theorem slice?_eq_some_iff {t b : Text} {i j : Nat} :
    slice? t i j = some b ↔ ∃ a c, t = a ++ b ++ c ∧ size a = i ∧ size a + size b = j := by
  constructor
  · intro h
    unfold slice? at h
    split at h
    · rename_i hij
      obtain ⟨r, hr, hb⟩ := Option.bind_eq_some_iff.mp h
      obtain ⟨a, rfl, rfl⟩ := drop?_eq_some_iff.mp hr
      obtain ⟨c, rfl, hs⟩ := take?_eq_some_iff.mp hb
      exact ⟨a, c, by simp, rfl, by omega⟩
    · cases h
  · rintro ⟨a, c, rfl, rfl, rfl⟩
    rw [slice?, if_pos (by omega), List.append_assoc, drop?_size_append, Option.bind_some,
      Nat.add_sub_cancel_left, take?_size_append]

theorem isBoundary_iff {t : Text} {n : Nat} :
    t.isBoundary n = true ↔ ∃ a b, t = a ++ b ∧ size a = n := by
  rw [isBoundary, Option.isSome_iff_exists]
  constructor
  · rintro ⟨b, hb⟩
    obtain ⟨a, ha⟩ := drop?_eq_some_iff.mp hb
    exact ⟨a, b, ha⟩
  · rintro ⟨a, b, h⟩
    exact ⟨b, drop?_eq_some_iff.mpr ⟨a, h⟩⟩

/-- A part of a part of a text is a part of the text. -/
theorem slice_of_slice {t p q r : Text} {i j k l : Nat} (h : slice? t i j = some (p ++ q ++ r))
    (hk : k = i + size p) (hl : l = k + size q) : slice? t k l = some q := by
  obtain ⟨a, b, rfl, rfl, -⟩ := slice?_eq_some_iff.mp h
  refine slice?_eq_some_iff.mpr ⟨a ++ p, r ++ b, by simp, ?_, ?_⟩
  · rw [size_append, hk]
  · rw [size_append, hl, hk]

/-- A text can be cut where a part of it starts and where the part stops. -/
theorem isBoundary_of_slice {t b : Text} {i j : Nat} (h : slice? t i j = some b) :
    t.isBoundary i = true ∧ t.isBoundary j = true := by
  obtain ⟨a, c, rfl, rfl, rfl⟩ := slice?_eq_some_iff.mp h
  exact ⟨isBoundary_iff.mpr ⟨a, b ++ c, by simp, rfl⟩,
    isBoundary_iff.mpr ⟨a ++ b, c, rfl, size_append a b⟩⟩

/-- Behind a first part of a text, a boundary cuts the rest. -/
theorem exists_split_of_isBoundary {a b : Text} {n : Nat} (h : isBoundary (a ++ b) n = true)
    (hn : size a ≤ n) : ∃ c d, b = c ++ d ∧ size a + size c = n := by
  obtain ⟨a', d, h', rfl⟩ := isBoundary_iff.mp h
  obtain ⟨c, rfl, rfl⟩ := exists_append_of_size_le h' hn
  exact ⟨c, d, rfl, by simp⟩

/-- What follows the characters of a class at the start of a text starts with none of them. -/
theorem not_of_mem_head?_drop (q : Char → Bool) (t : Text) :
    ∀ c ∈ (t.drop (t.takeWhile q).length).head?, q c = false := by
  induction t with
  | nil => simp
  | cons a t ih =>
    by_cases ha : q a = true
    · rw [List.takeWhile_cons_of_pos ha, List.length_cons, List.drop_succ_cons]
      exact ih
    · rw [List.takeWhile_cons_of_neg ha, List.length_nil, List.drop_zero, List.head?_cons]
      simpa using ha

/-- The bytes from `i` to `j` are a run of a class: a part of the text made of its characters, with
none of them right before or right behind. -/
def IsRun (q : Char → Bool) (t : Text) (i j : Nat) : Prop :=
  ∃ a r b, t = a ++ r ++ b ∧ size a = i ∧ size a + size r = j ∧ (∀ c ∈ r, q c = true) ∧
    (∀ c ∈ a.getLast?, q c = false) ∧ ∀ c ∈ b.head?, q c = false

section
variable {q : Char → Bool} {t before behind : Text} {i j i' j' : Nat}

/-- A run does not start inside of another. -/
theorem IsRun.start_le (h : IsRun q t i j) (h' : IsRun q t i' j') (hlt : i' < j) : i' ≤ i := by
  obtain ⟨a, r, b, ht, rfl, rfl, hr, -, -⟩ := h
  obtain ⟨a', r', b', ht', rfl, -, -, hbefore, -⟩ := h'
  by_contra hle
  rw [List.append_assoc] at ht ht'
  obtain ⟨x, rfl, hx⟩ := exists_append_of_size_le (ht.symm.trans ht') (by omega)
  rw [size_append] at hlt hle
  obtain ⟨y, rfl, -⟩ := exists_append_of_size_le hx.symm (by omega)
  have hne : x ≠ [] := by
    rintro rfl
    simp at hle
  have hlast := hbefore (x.getLast hne)
    (by simp [List.getLast?_append, List.getLast?_eq_some_getLast hne])
  rw [hr _ (by simp)] at hlast
  cases hlast

/-- Runs that start at one place stop at one place. -/
theorem IsRun.stop_le (h : IsRun q t i j) (h' : IsRun q t i j') : j' ≤ j := by
  obtain ⟨a, r, b, ht, rfl, rfl, -, -, hbehind⟩ := h
  obtain ⟨a', r', b', ht', hi, rfl, hr', -, -⟩ := h'
  by_contra hlt
  rw [List.append_assoc] at ht ht'
  obtain ⟨x, rfl, hx⟩ := exists_append_of_size_le (ht.symm.trans ht') (Nat.le_of_eq hi.symm)
  obtain rfl : x = [] := by
    rw [size_append] at hi
    exact size_eq_zero.mp (by omega)
  rw [List.append_nil] at hlt
  rw [List.nil_append] at hx
  obtain ⟨y, rfl, hb⟩ := exists_append_of_size_le hx (by omega)
  cases y with
  | nil => simp at hlt
  | cons c y =>
    have hc := hbehind c (by simp [hb])
    rw [hr' c (by simp)] at hc
    cases hc

/-- Overlapping runs of a class are the same. -/
theorem IsRun.eq_of_overlap (h : IsRun q t i j) (h' : IsRun q t i' j') (hlt : i' < j)
    (hlt' : i < j') : i = i' ∧ j = j' := by
  obtain rfl : i = i' := Nat.le_antisymm (h'.start_le h hlt') (h.start_le h' hlt)
  exact ⟨rfl, Nat.le_antisymm (h'.stop_le h) (h.stop_le h')⟩

/-- Behind another text a run stays a run, if the border is not inside of the class. -/
theorem IsRun.prepend (h : IsRun q t i j) (before : Text) (hij : i < j)
    (hborder : (∀ c ∈ before.getLast?, q c = false) ∨ ∀ c ∈ t.head?, q c = false) :
    IsRun q (before ++ t) (before.size + i) (before.size + j) := by
  obtain ⟨a, r, b, rfl, rfl, rfl, hr, ha, hb⟩ := h
  refine ⟨before ++ a, r, b, by simp, by simp, by simp [Nat.add_assoc], hr, fun c hc => ?_, hb⟩
  cases hlast : a.getLast? with
  | some d =>
    obtain rfl : d = c := by simpa [List.getLast?_append, hlast] using hc
    exact ha d hlast
  | none =>
    obtain rfl := List.getLast?_eq_none_iff.mp hlast
    rcases hborder with hborder | hborder
    · exact hborder c (by simpa using hc)
    · cases r with
      | nil => simp at hij
      | cons d r => simpa [hr d (by simp)] using hborder d (by simp)

theorem IsRun.append (h : IsRun q t i j)
    (hbehind : ∀ c ∈ behind.head?, q c = false) : IsRun q (t ++ behind) i j := by
  obtain ⟨a, r, b, rfl, hi, hj, hr, ha, hb⟩ := h
  refine ⟨a, r, b ++ behind, by simp, hi, hj, hr, ha, fun c hc => ?_⟩
  cases b with
  | nil => exact hbehind c hc
  | cons d b => exact hb c hc

end

end Tidymark.Text
