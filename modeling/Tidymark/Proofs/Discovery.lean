import Tidymark.Discovery
import Tidymark.Disk
import Tidymark.Proofs.Answer
import Tidymark.Proofs.Path
import Tidymark.Proofs.Repetition

/-! # What is found once

The files that patterns stand for are put in order by their components, and of neighbours with the
same components one stays. A dot at the start is a component: a file that a pattern names with one
and that is also found without one is listed in both ways. Nothing else is listed twice. -/
namespace Tidymark.Finder

open MonadAttach (CanReturn)

theorem mem_of_mem_arrange {paths : List String} {path : String} (h : path ∈ arrange paths) :
    path ∈ paths :=
  List.mem_mergeSort.mp ((eraseRepsBy_sublist _ _).subset h)

theorem pairwise_arrange (paths : List String) :
    (arrange paths).Pairwise fun p q => Path.atMost q p = false := by
  have hsorted : (paths.mergeSort Path.atMost).Pairwise fun p q => Path.atMost p q = true :=
    List.pairwise_mergeSort Path.atMost_trans Path.atMost_total paths
  exact pairwise_eraseRepsBy Path.atMost_trans Path.same_of_atMost hsorted

/-- Paths that lead the same way and differ all the same differ in a dot at the start. -/
theorem components_of_steps_eq {p q : String} (hne : Path.components p ≠ Path.components q)
    (hsteps : Path.steps p = Path.steps q) :
    Path.components p = .here :: Path.components q ∨
      Path.components q = .here :: Path.components p := by
  have hp := Path.components_eq p
  have hq := Path.components_eq q
  rw [hsteps] at hp
  cases hdotp : Path.isDotted p <;> cases hdotq : Path.isDotted q <;> simp_all

theorem outputPath_dot (path : String) : outputPath "." path = path := by
  have hsame : Path.same "." "." = true := by decide
  rw [outputPath, hsame, Bool.true_or, if_pos rfl]

theorem isDotted_relative (root : String) (names : List String) :
    Path.isDotted (relative "." root names) = false :=
  Path.isDotted_getD_strip? _

variable {m : Type → Type} [Monad m] [LawfulMonad m] [MonadAttach m] [LawfulMonadAttach m]
variable [MonadFiles m] {f : Finder} {root path : String} {patterns files : List String}
variable {globs : List Pattern}

/-- Of what is found in a directory, nothing that is taken has a dot at its start. -/
theorem isDotted_of_mem_filesIn {takes : String → Bool}
    (h : CanReturn (filesIn "." root : m _) files)
    (hpath : path ∈ (files.filter takes).map (outputPath ".")) : Path.isDotted path = false := by
  obtain ⟨walked, -, h⟩ := canReturn_bind h
  obtain rfl := canReturn_pure h
  obtain ⟨entry, hentry, rfl⟩ := List.mem_map.mp hpath
  obtain ⟨names, -, rfl⟩ := List.mem_map.mp (List.mem_of_mem_filter hentry)
  rw [outputPath_dot]
  exact isDotted_relative root names

/-- Only a pattern that names a file brings in a path with a dot at its start. -/
theorem mem_patterns_of_expand
    (h : CanReturn (f.expand "." patterns : ExceptT LintError m _) (files, globs))
    (hpath : path ∈ files) (hdotted : Path.isDotted path = true) : path ∈ patterns := by
  induction patterns generalizing files globs with
  | nil =>
    obtain ⟨rfl, -⟩ := Prod.mk.inj (canReturn_pure h)
    cases hpath
  | cons pattern rest ih =>
    obtain ⟨isFile, -, h⟩ := canReturn_bind h
    cases isFile with
    | true =>
      obtain ⟨⟨others, globs⟩, hothers, h⟩ := canReturn_bind h
      obtain ⟨rfl, rfl⟩ := Prod.mk.inj (canReturn_pure h)
      rcases List.mem_append.mp hpath with hpath | hpath
      · split at hpath
        · cases hpath
        · rw [outputPath_dot, List.mem_singleton] at hpath
          exact hpath ▸ List.mem_cons_self
      · exact List.mem_cons_of_mem _ (ih hothers hpath)
    | false =>
      obtain ⟨isDirectory, -, h⟩ := canReturn_bind h
      cases isDirectory with
      | true =>
        obtain ⟨found, hfound, h⟩ := canReturn_bind h
        obtain ⟨⟨others, globs⟩, hothers, h⟩ := canReturn_bind h
        obtain ⟨rfl, rfl⟩ := Prod.mk.inj (canReturn_pure h)
        rcases List.mem_append.mp hpath with hpath | hpath
        · have hplain := isDotted_of_mem_filesIn (canReturn_lift hfound) hpath
          exact absurd hdotted (Bool.eq_false_iff.mp hplain)
        · exact List.mem_cons_of_mem _ (ih hothers hpath)
      | false =>
        simp only [Bool.false_eq_true, if_false] at h
        split at h
        · exact absurd h not_canReturn_throw
        · obtain ⟨⟨others, globs⟩, hothers, h⟩ := canReturn_bind h
          obtain ⟨rfl, rfl⟩ := Prod.mk.inj (canReturn_pure h)
          exact List.mem_cons_of_mem _ (ih hothers hpath)

/-- What is listed are arranged paths, and those with a dot at the start are patterns. -/
theorem exists_arrange_of_discover
    (h : CanReturn (f.discover patterns "." : ExceptT LintError m _) files) :
    ∃ found, files = arrange found ∧
      ∀ path ∈ found, Path.isDotted path = true → path ∈ patterns := by
  obtain ⟨⟨named, globs⟩, hnamed, h⟩ := canReturn_bind h
  simp only at h
  split at h
  · exact ⟨named, (canReturn_pure h).symm, fun path => mem_patterns_of_expand hnamed⟩
  · obtain ⟨all, hall, h⟩ := canReturn_bind h
    refine ⟨_, (canReturn_pure h).symm, fun path hpath hdotted => ?_⟩
    rcases List.mem_append.mp hpath with hpath | hpath
    · exact mem_patterns_of_expand hnamed hpath hdotted
    · have hplain := isDotted_of_mem_filesIn (canReturn_lift hall) hpath
      exact absurd hdotted (Bool.eq_false_iff.mp hplain)

/-- Of two entries for one file, one is a pattern that is written with a dot at the start, and the
other is the same path without it. So if no pattern is written so, no file is listed twice. -/
theorem pairwise_discover
    (h : CanReturn (f.discover patterns "." : ExceptT LintError m _) files) :
    (files.Pairwise fun p q => Path.steps p = Path.steps q →
      p ∈ patterns ∧ Path.components p = .here :: Path.components q ∨
      q ∈ patterns ∧ Path.components q = .here :: Path.components p) ∧
    ((∀ pattern ∈ patterns, Path.isDotted pattern = false) → (files.map Path.steps).Nodup) := by
  obtain ⟨found, rfl, hfound⟩ := exists_arrange_of_discover h
  have hpairs : (arrange found).Pairwise fun p q => Path.steps p = Path.steps q →
      p ∈ patterns ∧ Path.components p = .here :: Path.components q ∨
      q ∈ patterns ∧ Path.components q = .here :: Path.components p := by
    refine (pairwise_arrange found).imp_of_mem fun {p q} hp hq hstrict hsteps => ?_
    have hne : Path.components p ≠ Path.components q := by
      intro hsame
      have hback : Path.atMost q p = true := by
        rw [Path.atMost, hsame]
        exact Path.atMostList_refl _
      exact absurd hback (by simp [hstrict])
    rcases components_of_steps_eq hne hsteps with hpq | hqp
    · exact .inl ⟨hfound p (mem_of_mem_arrange hp) (Path.isDotted_of_components hpq), hpq⟩
    · exact .inr ⟨hfound q (mem_of_mem_arrange hq) (Path.isDotted_of_components hqp), hqp⟩
  refine ⟨hpairs, fun hplain => List.pairwise_map.mpr (hpairs.imp fun {p q} hpq hsteps => ?_)⟩
  rcases hpq hsteps with ⟨hp, hcomponents⟩ | ⟨hq, hcomponents⟩
  · exact Bool.eq_false_iff.mp (hplain p hp) (Path.isDotted_of_components hcomponents)
  · exact Bool.eq_false_iff.mp (hplain q hq) (Path.isDotted_of_components hcomponents)

/-- A file is named with too many slashes and found in its directory. -/
theorem pairwise_discover_slashes :
    let f : Finder := ⟨[], [], defaultExtensions⟩
    let d : Disk := .ofNodes
      [(["b.md"], .file []), (["docs"], .directory), (["docs", "a.md"], .file [])]
    let patterns := ["docs", "docs//a.md", "b.md"]
    let files := arrange ["docs/a.md", "docs//a.md", "b.md"]
    ((f.discover patterns "." : ExceptT LintError (StateT Disk Id) _).run.run d).1 = .ok files ∧
      (∀ pattern ∈ patterns, Path.isDotted pattern = false) ∧ (files.map Path.steps).Nodup := by
  intro f d patterns files
  have hrun : (f.discover patterns "." : ExceptT LintError (StateT Disk Id) _).run.run d =
      (.ok files, d) := rfl
  have hfiles : CanReturn (f.discover patterns "." : ExceptT LintError (StateT Disk Id) _) files :=
    ⟨d, d, hrun⟩
  have hplain : ∀ pattern ∈ patterns, Path.isDotted pattern = false := by decide
  exact ⟨congrArg Prod.fst hrun, hplain, (pairwise_discover hfiles).2 hplain⟩

/-- A file is named without a dot and with one, and is listed twice. -/
theorem discover_dotted :
    let f : Finder := ⟨[], [], defaultExtensions⟩
    let d : Disk := .ofNodes [(["a.md"], .file [120, 10])]
    ∃ files, ((f.discover ["a.md", "./a.md"] "." :
        ExceptT LintError (StateT Disk Id) _).run.run d).1 = .ok files ∧
      files = ["./a.md", "a.md"] ∧ ¬ (files.map Path.steps).Nodup := by
  intro f d
  have hbefore : Path.atMost "a.md" "./a.md" = false := by decide
  have hdiffer : Path.same "./a.md" "a.md" = false := by decide
  have hsteps : Path.steps "./a.md" = Path.steps "a.md" := by decide
  have hfiles : arrange ["a.md", "./a.md"] = ["./a.md", "a.md"] := by
    simp [arrange, List.mergeSort, hbefore, eraseRepsBy_cons_cons, hdiffer]
    rfl
  exact ⟨arrange ["a.md", "./a.md"], rfl, hfiles, by simp [hfiles, hsteps]⟩

end Tidymark.Finder
