import Tidymark.Proofs.Disk.Place
import Tidymark.Proofs.Path

/-! # Plain paths

A plain path has no piece that counts for nothing: no dot, and nothing empty. The text of such a
path is what its steps are written as. What is found below a directory is called by the path of the
directory, without dots and slashes at the start and without a slash at the end, and by names. -/
namespace Tidymark.Path

/-- How a component is written. -/
def Component.text : Component → List Char
  | root => []
  | here => ['.']
  | up => ['.', '.']
  | name n => n.toList

/-- What the steps of a path are written as, with one slash between two of them. -/
def plain (path : String) : String :=
  String.ofList (['/'].intercalate ((steps path).map Component.text))

/-- Whether a piece of a text between slashes counts for nothing. -/
def hasIdle (s : List Char) : Bool := (pieces s).any fun piece => (componentOf? piece).isNone

/-- A text without the slash at its end. -/
def dropSlash (s : List Char) : List Char := if s.getLast? = some '/' then s.dropLast else s

/-- How all paths below a directory begin. -/
def stem (directory : String) : List Char := skip (dropSlash directory.toList)

/-- A name that a file or a directory can have. -/
def IsName (n : String) : Prop := '/' ∉ n.toList ∧ componentOf? n.toList = some (.name n)

instance : DecidablePred IsName := fun _ => inferInstanceAs (Decidable (_ ∧ _))

variable {s t : List Char} {path base root n : String} {names : List String}

theorem exists_pieces_cons (s : List Char) : ∃ piece others, pieces s = piece :: others := by
  cases hpieces : pieces s with
  | nil => simpa [hpieces] using head?_pieces s
  | cons piece others => exact ⟨piece, others, rfl⟩

theorem intercalate_pieces (s : List Char) : ['/'].intercalate (pieces s) = s := by
  induction s with
  | nil => rfl
  | cons c s ih =>
    obtain ⟨piece, others, hpieces⟩ := exists_pieces_cons s
    rw [hpieces] at ih
    by_cases hc : c = '/'
    · simp [pieces, hc, hpieces, List.intercalate_cons_cons, ih]
    · cases others with
      | nil => simpa [pieces, hc, hpieces] using ih
      | cons next others => simpa [pieces, hc, hpieces, List.intercalate_cons_cons] using ih

theorem pieces_append_slash (s t : List Char) : pieces (s ++ '/' :: t) = pieces s ++ pieces t := by
  induction s with
  | nil => simp [pieces]
  | cons c s ih =>
    obtain ⟨piece, others, hpieces⟩ := exists_pieces_cons s
    by_cases hc : c = '/'
    · simp [pieces, hc, ih]
    · simp [pieces, hc, ih, hpieces]

theorem hasIdle_append_slash (s t : List Char) :
    hasIdle (s ++ '/' :: t) = (hasIdle s || hasIdle t) := by
  rw [hasIdle, pieces_append_slash, List.any_append]
  rfl

theorem text_of_componentOf? {piece : List Char} {c : Component} (h : componentOf? piece = some c) :
    c.text = piece := by
  unfold componentOf? at h
  split at h
  · cases h
  · cases h
  · rw [← Option.some.inj h]
    rfl
  · rw [← Option.some.inj h, Component.text, String.toList_ofList]

theorem componentOf?_ne_none (h : hasIdle s = false) {piece : List Char} (hmem : piece ∈ pieces s) :
    componentOf? piece ≠ none := by
  intro hnone
  have hidle := List.any_eq_false.mp h piece hmem
  rw [hnone] at hidle
  exact hidle rfl

theorem head?_pieces_ne (h : hasIdle s = false) {piece : List Char}
    (hidle : componentOf? piece = none) : (pieces s).head? ≠ some piece :=
  fun hhead => componentOf?_ne_none h (List.mem_of_head? hhead) hidle

theorem steps_of_not_idle (h : hasIdle path.toList = false) :
    steps path = (pieces path.toList).filterMap componentOf? := by
  have hrelative : isAbsolute path = false := by
    refine beq_eq_false_iff_ne.mpr fun hhead => ?_
    obtain ⟨rest, hrest⟩ := List.head?_eq_some_iff.mp hhead
    exact head?_pieces_ne h (by rfl : componentOf? [] = none) (by simp [hrest, pieces])
  have hfirst : (pieces path.toList).head? ≠ some ['.'] := head?_pieces_ne h rfl
  rw [steps, components, if_neg (by simp [hrelative]), if_neg (by simpa using hfirst),
    List.nil_append]
  refine List.filter_eq_self.mpr fun c hc => bne_iff_ne.mpr ?_
  rintro rfl
  exact here_not_mem_filterMap _ hc

/-- A path of which every piece counts is plain. -/
theorem plain_of_not_idle (h : hasIdle path.toList = false) : plain path = path := by
  have htexts : ∀ ps : List (List Char), (∀ piece ∈ ps, componentOf? piece ≠ none) →
      (ps.filterMap componentOf?).map Component.text = ps := by
    intro ps
    induction ps with
    | nil => exact fun _ => rfl
    | cons piece ps ih =>
      intro hps
      obtain ⟨hpiece, hps⟩ := List.forall_mem_cons.mp hps
      obtain ⟨c, hc⟩ := Option.ne_none_iff_exists'.mp hpiece
      rw [List.filterMap_cons_some hc, List.map_cons, text_of_componentOf? hc, ih hps]
  rw [plain, steps_of_not_idle h, htexts _ fun piece hpiece => componentOf?_ne_none h hpiece,
    intercalate_pieces, String.ofList_toList]

theorem IsName.toList_ne_nil (h : IsName n) : n.toList ≠ [] := by
  intro hnil
  have hnone := h.2
  rw [hnil] at hnone
  cases hnone

theorem IsName.not_isAbsolute (h : IsName n) : isAbsolute n = false :=
  beq_eq_false_iff_ne.mpr fun hhead => h.1 (List.mem_of_head? hhead)

theorem IsName.dropSlash_append (h : IsName n) (s : List Char) :
    dropSlash (s ++ n.toList) = s ++ n.toList := by
  refine if_neg fun hlast => h.1 (List.mem_of_getLast? ?_)
  rwa [List.getLast?_append_of_ne_nil _ h.toList_ne_nil] at hlast

theorem IsName.hasIdle_toList (h : IsName n) : hasIdle n.toList = false := by
  simp [hasIdle, pieces_of_not_mem h.1, h.2]

@[simp]
theorem dropSlash_cons_cons (a b : Char) (s : List Char) :
    dropSlash (a :: b :: s) = a :: dropSlash (b :: s) := by
  simp only [dropSlash, List.getLast?_cons_cons, List.dropLast_cons_cons]
  split <;> rfl

/-- A slash at the start stays unless there is nothing behind it, and it counts for nothing. -/
theorem skip_dropSlash_cons (s : List Char) : skip (dropSlash ('/' :: s)) = skip (dropSlash s) := by
  cases s with
  | nil => rfl
  | cons c s => rw [dropSlash_cons_cons, skip]

theorem toList_join (hbase : base.isEmpty = false) (hpath : isAbsolute path = false) :
    (join base path).toList = dropSlash base.toList ++ '/' :: path.toList := by
  unfold join dropSlash
  by_cases hlast : base.toList.getLast? = some '/'
  · simp only [hpath, hbase, Bool.or_self, Bool.false_eq_true, if_false, hlast, BEq.rfl, if_true,
      String.toList_append]
    conv_lhs => rw [← List.dropLast_append_getLast? '/' hlast]
    simp
  · simp [hpath, hbase, hlast, String.toList_append]

theorem toList_foldl_join (hroot : root.isEmpty = false) (hne : names ≠ [])
    (h : ∀ n ∈ names, IsName n) : (names.foldl join root).toList =
      dropSlash root.toList ++ '/' :: ['/'].intercalate (names.map String.toList) := by
  induction names generalizing root with
  | nil => exact absurd rfl hne
  | cons n names ih =>
    obtain ⟨hn, hnames⟩ := List.forall_mem_cons.mp h
    have hjoin := toList_join hroot hn.not_isAbsolute
    cases names with
    | nil => simpa using hjoin
    | cons next names =>
      have hnext : (join root n).isEmpty = false := by
        rw [String.isEmpty_eq_false_iff]
        intro hempty
        simp [hempty] at hjoin
      rw [List.foldl_cons, ih hnext (by simp) hnames, hjoin, ← List.singleton_append,
        ← List.append_assoc, hn.dropSlash_append]
      simp [List.intercalate_cons_cons]

/-- Names with slashes between them make up a plain path. -/
theorem hasIdle_intercalate (hne : names ≠ []) (h : ∀ n ∈ names, IsName n) :
    hasIdle (['/'].intercalate (names.map String.toList)) = false := by
  induction names with
  | nil => exact absurd rfl hne
  | cons n names ih =>
    obtain ⟨hn, hnames⟩ := List.forall_mem_cons.mp h
    cases names with
    | nil => simpa using hn.hasIdle_toList
    | cons next names =>
      have hrest := ih (by simp) hnames
      rw [List.map_cons, List.map_cons, List.intercalate_cons_cons, List.append_assoc,
        List.singleton_append, hasIdle_append_slash, hn.hasIdle_toList, ← List.map_cons, hrest]
      rfl

theorem skip_of_not_idle (h : hasIdle s = false) : skip s = s := by
  have hempty := head?_pieces_ne h (by rfl : componentOf? [] = none)
  have hdot := head?_pieces_ne h (by rfl : componentOf? ['.'] = none)
  rw [head?_pieces] at hempty hdot
  unfold skip
  split <;> simp_all

/-- What is dropped at the start of a path ends with the text in front of a slash, unless there is
nothing else in front of it. -/
theorem skip_append_slash (s t : List Char) :
    skip (s ++ '/' :: t) = if skip s = [] then skip t else skip s ++ '/' :: t := by
  fun_induction skip s with
  | case1 rest ih => simpa [skip] using ih
  | case2 => simp [skip]
  | case3 rest ih => simpa [skip] using ih
  | case4 path hslash hdot hdotted =>
    cases path with
    | nil => simp [skip]
    | cons c path =>
      rw [if_neg (by simp), List.cons_append]
      unfold skip
      split
      · rename_i heq
        exact absurd (congrArg (· :: path) (List.cons.inj heq).1) (hslash path)
      · rename_i heq
        simp at heq
      · rename_i rest heq
        obtain ⟨rfl, hrest⟩ := List.cons.inj heq
        cases path with
        | nil => exact absurd rfl hdot
        | cons d path =>
          obtain ⟨rfl, -⟩ := List.cons.inj hrest
          exact absurd rfl (hdotted path)
      · rfl

end Tidymark.Path
