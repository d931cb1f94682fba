import Tidymark.Proofs.Discovery
import Tidymark.Proofs.Path.Plain

/-! # What is excluded

What is listed is what the patterns find and the filter lets through, and the filter is asked about
a path as that is spelled. What is found below a directory or by a glob is called by names alone,
and a pattern adds to these what it is written as. So a listed path passes the filter, and its plain
form does so too, unless a pattern is written with a dot or a slash that counts for nothing: before
that filter the plain path and the spelled one are two. -/
namespace Tidymark

namespace Disk

/-- Every entry can be found, and is called by names. -/
structure WellFormed (d : Disk) : Prop where
  get?_eq : ∀ e ∈ d.nodes, d.get? e.1 = some e.2
  isName : ∀ e ∈ d.nodes, ∀ n ∈ e.1, Path.IsName n

variable {d : Disk} {path : String} {start full names : List String} {node : FileNode}
variable {action : FileAction} {enters : String → Bool}

theorem behind?_eq_some_iff : behind? start full = some names ↔ full = start ++ names := by
  induction start generalizing full with
  | nil => simp [behind?]
  | cons a start ih =>
    cases full with
    | nil => simp [behind?]
    | cons b full =>
      rw [behind?]
      split
      · rename_i hsame
        simp [ih, hsame]
      · rename_i hdiffer
        simp [Ne.symm hdiffer]

theorem exists_locate_of_lookUp (h : d.lookUp action path = .ok node) :
    ∃ names, d.locate path = .ok names ∧ d.get? names = some node := by
  obtain ⟨names, hnames, h⟩ := bind_eq_ok_iff.mp h
  refine ⟨names, hnames, ?_⟩
  split at h
  · cases h
  · rename_i held hheld
    split at h
    · cases h
    · rw [hheld, Except.ok.inj h]

/-- What is found below a directory is called by at least one name. -/
theorem WellFormed.names_of_mem_walk (hd : d.WellFormed) (hstart : d.locate path = .ok start)
    (hdirectory : d.get? start = some .directory) (h : names ∈ d.walk enters path) :
    names ≠ [] ∧ ∀ n ∈ names, Path.IsName n := by
  rw [walk, hstart] at h
  obtain ⟨⟨full, node⟩, hmem, hnode⟩ := List.mem_filterMap.mp (List.mem_of_mem_filter h)
  cases node with
  | directory => cases hnode
  | file bytes =>
    obtain rfl := behind?_eq_some_iff.mp hnode
    refine ⟨?_, fun n hn => hd.isName _ hmem n (List.mem_append_right start hn)⟩
    rintro rfl
    have hfile := hd.get?_eq _ hmem
    rw [List.append_nil, hdirectory] at hfile
    cases hfile

/-- Whether a pattern names a file by a path that is not plain, or a directory below which there are
no plain paths. -/
def isMisspelt (d : Disk) (pattern : String) : Bool :=
  match d.lookUp .kind (Path.join "." pattern) with
  | .ok (.file _) => Path.plain pattern != pattern
  | .ok .directory => !(Path.stem pattern).isEmpty && Path.hasIdle (Path.stem pattern)
  | .error _ => false

end Disk

section
variable {σ ε α β : Type} {s t : σ}

/-- A sequence of two computations on a state succeeds if both do. -/
theorem run_bind_eq_ok {x : ExceptT ε (StateT σ Id) α} {f : α → ExceptT ε (StateT σ Id) β} {b : β}
    (h : (x >>= f).run.run s = (.ok b, t)) :
    ∃ a u, x.run.run s = (.ok a, u) ∧ (f a).run.run u = (.ok b, t) := by
  rw [ExceptT.run_bind, StateT.run_bind] at h
  cases hx : x.run.run s with
  | mk answer u =>
    rw [hx] at h
    cases answer with
    | ok a => exact ⟨a, u, rfl, h⟩
    | error e => cases h

theorem run_pure_eq_ok {a b : α}
    (h : (pure a : ExceptT ε (StateT σ Id) α).run.run s = (.ok b, t)) : a = b ∧ s = t := by
  cases h
  exact ⟨rfl, rfl⟩

theorem run_lift_eq_ok {x : StateT σ Id α} {a : α}
    (h : (liftM x : ExceptT ε (StateT σ Id) α).run.run s = (.ok a, t)) : x.run s = (a, t) := by
  have h' : (Except.ok (x.run s).1, (x.run s).2) = (Except.ok (ε := ε) a, t) := h
  obtain ⟨hanswer, hstate⟩ := Prod.mk.inj h'
  exact Prod.ext (Except.ok.inj hanswer) hstate

end

namespace Finder

variable {f : Finder} {d e : Disk} {path pattern root : String} {b : Bool}
variable {patterns files names : List String} {globs : List Pattern}

/-- What the filter lets through. -/
def Admits (f : Finder) (path : String) : Prop :=
  matchesAny f.excluded path = false ∧ (f.included ≠ [] → matchesAny f.included path = true)

theorem admits_iff : f.Admits path ↔ f.ignores path = false := by
  unfold Admits ignores
  cases matchesAny f.excluded path <;> cases f.included <;> simp

/-- A question for the kind of a file leaves the disk as it is, and the answer is about what can be
looked up. -/
theorem run_kind {p : FileKind → Bool}
    (h : (do
      match ← MonadFiles.kind path with
      | .ok kind => return p kind
      | .error _ => return false : StateT Disk Id Bool).run d = (b, e)) :
    e = d ∧ (b = true ↔ ∃ node, d.lookUp .kind path = .ok node ∧ p node.kind = true) := by
  have hkind : (MonadFiles.kind path : StateT Disk Id _).run d =
      ((d.lookUp .kind path).map FileNode.kind, d) := rfl
  rw [StateT.run_bind, hkind] at h
  cases hnode : d.lookUp .kind path with
  | error reason =>
    rw [hnode] at h
    cases h
    exact ⟨rfl, nofun, nofun⟩
  | ok node =>
    rw [hnode] at h
    cases h
    simp [FileNode.kind]

theorem run_isFile (h : (isFile path : StateT Disk Id Bool).run d = (b, e)) :
    e = d ∧ (b = true ↔ ∃ bytes, d.lookUp .kind path = .ok (.file bytes)) := by
  obtain ⟨hdisk, hnode⟩ := run_kind h
  refine ⟨hdisk, hnode.trans ⟨?_, ?_⟩⟩
  · rintro ⟨node, hnode, hkind⟩
    cases node with
    | file bytes => exact ⟨bytes, hnode⟩
    | directory => cases hkind
  · rintro ⟨bytes, hfile⟩
    exact ⟨.file bytes, hfile, rfl⟩

theorem run_isDirectory (h : (isDirectory path : StateT Disk Id Bool).run d = (b, e)) :
    e = d ∧ (b = true ↔ d.lookUp .kind path = .ok .directory) := by
  obtain ⟨hdisk, hnode⟩ := run_kind h
  refine ⟨hdisk, hnode.trans ⟨?_, ?_⟩⟩
  · rintro ⟨node, hnode, hkind⟩
    cases node with
    | file bytes => cases hkind
    | directory => exact hnode
  · exact fun hdirectory => ⟨.directory, hdirectory, rfl⟩

theorem run_filesIn (h : (filesIn "." root : StateT Disk Id _).run d = (files, e)) :
    e = d ∧ files = (d.walk isVisible root).map (relative "." root) := by
  cases h
  exact ⟨rfl, rfl⟩

/-- What a pattern stands for before the filter: the file that it names, the Markdown files of the
directory that it names, or what it matches as a glob. -/
def Finds (f : Finder) (d : Disk) (pattern path : String) : Prop :=
  match d.lookUp .kind (Path.join "." pattern) with
  | .ok (.file _) => path = pattern
  | .ok .directory =>
    path ∈ (d.walk isVisible (Path.join "." pattern)).map (relative "." (Path.join "." pattern)) ∧
      f.hasExtension path = true
  | .error _ =>
    ∃ glob, Glob.parse pattern = .ok glob ∧
      path ∈ (d.walk isVisible ".").map (relative "." ".") ∧ matchesAny [glob] path = true

theorem finds_of_file {bytes : List UInt8}
    (h : d.lookUp .kind (Path.join "." pattern) = .ok (.file bytes)) :
    f.Finds d pattern path ↔ path = pattern := by
  unfold Finds
  rw [h]

theorem finds_of_directory (h : d.lookUp .kind (Path.join "." pattern) = .ok .directory) :
    f.Finds d pattern path ↔
      path ∈ (d.walk isVisible (Path.join "." pattern)).map
        (relative "." (Path.join "." pattern)) ∧ f.hasExtension path = true := by
  unfold Finds
  rw [h]

theorem finds_of_error {reason : FileError} {glob : Pattern}
    (h : d.lookUp .kind (Path.join "." pattern) = .error reason)
    (hglob : Glob.parse pattern = .ok glob) :
    f.Finds d pattern path ↔
      path ∈ (d.walk isVisible ".").map (relative "." ".") ∧ matchesAny [glob] path = true := by
  unfold Finds
  simp [h, hglob]

theorem matchesAny_cons {glob : Pattern} : matchesAny (glob :: globs) path = true ↔
    matchesAny [glob] path = true ∨ matchesAny globs path = true := by
  simp [matchesAny]

theorem map_outputPath_dot (paths : List String) : paths.map (outputPath ".") = paths :=
  (List.map_congr_left (g := id) fun path _ => outputPath_dot path).trans (List.map_id paths)

/-- A file that is named is taken if the filter lets its name through as that is spelled. -/
theorem mem_kept_file {bytes : List UInt8}
    (h : d.lookUp .kind (Path.join "." pattern) = .ok (.file bytes)) :
    path ∈ (if f.ignores pattern then [] else [outputPath "." pattern]) ↔
      f.Admits path ∧ f.Finds d pattern path := by
  rw [finds_of_file h, outputPath_dot, admits_iff]
  split
  · rename_i hignored
    refine ⟨nofun, ?_⟩
    rintro ⟨hkept, rfl⟩
    rw [hignored] at hkept
    cases hkept
  · rename_i hkept
    rw [List.mem_singleton]
    refine ⟨?_, And.right⟩
    rintro rfl
    exact ⟨Bool.eq_false_iff.mpr hkept, rfl⟩

theorem mem_kept_directory (h : d.lookUp .kind (Path.join "." pattern) = .ok .directory) :
    path ∈ (((d.walk isVisible (Path.join "." pattern)).map
        (relative "." (Path.join "." pattern))).filter fun path =>
          f.hasExtension path && !f.ignores path).map (outputPath ".") ↔
      f.Admits path ∧ f.Finds d pattern path := by
  rw [map_outputPath_dot, List.mem_filter, finds_of_directory h, admits_iff, Bool.and_eq_true,
    Bool.not_eq_true']
  exact and_assoc.symm.trans and_comm

/-- What the patterns bring in, and what their globs match, is what they find and is let through. -/
theorem run_expand
    (h : (f.expand "." patterns : ExceptT LintError (StateT Disk Id) _).run.run d =
      (.ok (files, globs), e)) :
    e = d ∧ ∀ path, path ∈ files ∨ f.Admits path ∧
        path ∈ (d.walk isVisible ".").map (relative "." ".") ∧ matchesAny globs path = true ↔
      f.Admits path ∧ ∃ pattern ∈ patterns, f.Finds d pattern path := by
  induction patterns generalizing files globs with
  | nil =>
    obtain ⟨hpair, rfl⟩ := run_pure_eq_ok h
    obtain ⟨rfl, rfl⟩ := Prod.mk.inj hpair
    simp [matchesAny]
  | cons pattern rest ih =>
    obtain ⟨isFile, u, hfile, h⟩ := run_bind_eq_ok h
    obtain ⟨rfl, hfile⟩ := run_isFile (run_lift_eq_ok hfile)
    cases isFile with
    | true =>
      obtain ⟨⟨others, globs⟩, v, hothers, h⟩ := run_bind_eq_ok h
      obtain ⟨hpair, rfl⟩ := run_pure_eq_ok h
      obtain ⟨rfl, rfl⟩ := Prod.mk.inj hpair
      obtain ⟨rfl, hfound⟩ := ih hothers
      obtain ⟨bytes, hbytes⟩ := hfile.mp rfl
      refine ⟨rfl, fun path => ?_⟩
      rw [List.mem_append, or_assoc, hfound, mem_kept_file hbytes, ← and_or_left,
        List.exists_mem_cons_iff]
    | false =>
      obtain ⟨isDirectory, v, hdirectory, h⟩ := run_bind_eq_ok h
      obtain ⟨rfl, hdirectory⟩ := run_isDirectory (run_lift_eq_ok hdirectory)
      cases isDirectory with
      | true =>
        obtain ⟨found, v, hwalk, h⟩ := run_bind_eq_ok h
        obtain ⟨rfl, rfl⟩ := run_filesIn (run_lift_eq_ok hwalk)
        obtain ⟨⟨others, globs⟩, v, hothers, h⟩ := run_bind_eq_ok h
        obtain ⟨hpair, rfl⟩ := run_pure_eq_ok h
        obtain ⟨rfl, rfl⟩ := Prod.mk.inj hpair
        obtain ⟨rfl, hfound⟩ := ih hothers
        refine ⟨rfl, fun path => ?_⟩
        rw [List.mem_append, or_assoc, hfound, mem_kept_directory (hdirectory.mp rfl),
          ← and_or_left, List.exists_mem_cons_iff]
      | false =>
        simp only [Bool.false_eq_true, if_false] at h
        split at h
        · cases h
        · rename_i glob hglob
          obtain ⟨⟨others, globs⟩, v, hothers, h⟩ := run_bind_eq_ok h
          obtain ⟨hpair, rfl⟩ := run_pure_eq_ok h
          obtain ⟨rfl, rfl⟩ := Prod.mk.inj hpair
          obtain ⟨rfl, hfound⟩ := ih hothers
          obtain ⟨reason, hreason⟩ : ∃ reason,
              v.lookUp .kind (Path.join "." pattern) = .error reason := by
            cases hnode : v.lookUp .kind (Path.join "." pattern) with
            | error reason => exact ⟨reason, rfl⟩
            | ok node =>
              cases node with
              | file bytes => cases hfile.mpr ⟨bytes, hnode⟩
              | directory => cases hdirectory.mpr hnode
          refine ⟨rfl, fun path => ?_⟩
          rw [matchesAny_cons, and_or_left, and_or_left, or_left_comm, hfound,
            ← finds_of_error hreason hglob, ← and_or_left, List.exists_mem_cons_iff]

/-- What is listed is what has been found and is let through, in order and once. -/
theorem exists_arrange_of_run_discover
    (h : (f.discover patterns "." : ExceptT LintError (StateT Disk Id) _).run.run d =
      (.ok files, e)) :
    ∃ found, files = arrange found ∧
      ∀ path, path ∈ found ↔ f.Admits path ∧ ∃ pattern ∈ patterns, f.Finds d pattern path := by
  obtain ⟨⟨named, globs⟩, u, hnamed, hlisted⟩ := run_bind_eq_ok h
  obtain ⟨rfl, hfound⟩ := run_expand hnamed
  simp only at hlisted
  split at hlisted
  · rename_i hempty
    obtain ⟨rfl, -⟩ := run_pure_eq_ok hlisted
    refine ⟨named, rfl, fun path => ?_⟩
    rw [← hfound, List.isEmpty_iff.mp hempty]
    simp [matchesAny]
  · obtain ⟨all, v, hall, hlisted⟩ := run_bind_eq_ok hlisted
    obtain ⟨rfl, rfl⟩ := run_filesIn (run_lift_eq_ok hall)
    obtain ⟨rfl, -⟩ := run_pure_eq_ok hlisted
    refine ⟨_, rfl, fun path => ?_⟩
    rw [← hfound, map_outputPath_dot, List.mem_append, List.mem_filter, admits_iff,
      Bool.and_eq_true, Bool.not_eq_true']
    exact or_congr_right (and_assoc.symm.trans and_comm)

/-- What is found below a directory with a dot at its start has what follows the dot and the slashes
in front of its names. -/
theorem toList_relative (hroot : Path.isDotted root = true) (hne : names ≠ [])
    (h : ∀ n ∈ names, Path.IsName n) : (relative "." root names).toList =
      if Path.skip ((Path.dropSlash root.toList).drop 1) = [] then
        ['/'].intercalate (names.map String.toList)
      else Path.skip ((Path.dropSlash root.toList).drop 1) ++
        '/' :: ['/'].intercalate (names.map String.toList) := by
  have hnonempty : root.isEmpty = false := by
    rw [String.isEmpty_eq_false_iff]
    rintro rfl
    cases hroot
  have hfull := Path.toList_foldl_join hnonempty hne h
  obtain ⟨front, hfront, hdotted⟩ : ∃ front, Path.dropSlash root.toList = '.' :: front ∧
      Path.isDotted (names.foldl Path.join root) = true := by
    rw [Path.isDotted_iff] at hroot ⊢
    rcases hroot with hroot | ⟨rest, hroot⟩
    · refine ⟨[], by rw [hroot]; rfl, .inr ⟨_, by rw [hfull, hroot]; rfl⟩⟩
    · cases rest with
      | nil => refine ⟨[], by rw [hroot]; rfl, .inr ⟨_, by rw [hfull, hroot]; rfl⟩⟩
      | cons c rest =>
        rw [hroot, Path.dropSlash_cons_cons, Path.dropSlash_cons_cons] at hfull ⊢
        exact ⟨_, rfl, .inr ⟨_, hfull⟩⟩
  rw [relative, Path.strip?_dot, if_pos hdotted, Option.getD_some, String.toList_ofList, hfull,
    hfront, List.cons_append, List.drop_one, List.tail_cons, List.drop_one, List.tail_cons,
    Path.skip_append_slash, Path.skip_of_not_idle (Path.hasIdle_intercalate hne h)]

/-- What is found anywhere is called by its names alone. -/
theorem hasIdle_relative_dot (hne : names ≠ []) (h : ∀ n ∈ names, Path.IsName n) :
    Path.hasIdle (relative "." "." names).toList = false := by
  rw [toList_relative (by decide) hne h, if_pos (by decide)]
  exact Path.hasIdle_intercalate hne h

/-- What is found below a directory is called by the directory and its names. -/
theorem toList_relative_join (hpattern : Path.isAbsolute pattern = false) (hne : names ≠ [])
    (h : ∀ n ∈ names, Path.IsName n) :
    (relative "." (Path.join "." pattern) names).toList =
      if Path.stem pattern = [] then ['/'].intercalate (names.map String.toList)
      else Path.stem pattern ++ '/' :: ['/'].intercalate (names.map String.toList) := by
  have hjoin : (Path.join "." pattern).toList = '.' :: '/' :: pattern.toList :=
    Path.toList_join (by decide) hpattern
  have hstem : Path.skip ((Path.dropSlash (Path.join "." pattern).toList).drop 1) =
      Path.stem pattern := by
    rw [hjoin, Path.dropSlash_cons_cons, List.drop_one, List.tail_cons, Path.skip_dropSlash_cons,
      Path.stem]
  rw [toList_relative (Path.isDotted_iff.mpr (.inr ⟨_, hjoin⟩)) hne h, hstem]

/-- A path that is found is plain unless the pattern is misspelt. -/
theorem Finds.plain_or (hd : d.WellFormed) (h : f.Finds d pattern path) :
    Path.plain path = path ∨ d.isMisspelt pattern = true ∧
      (path = pattern ∨ Path.stem pattern ++ ['/'] <+: path.toList) := by
  cases hnode : d.lookUp .kind (Path.join "." pattern) with
  | error reason =>
    unfold Finds at h
    rw [hnode] at h
    obtain ⟨glob, -, hmem, -⟩ := h
    obtain ⟨names, hnames, rfl⟩ := List.mem_map.mp hmem
    have hhere : d.locate "." = .ok [] := rfl
    obtain ⟨hne, hnames⟩ := hd.names_of_mem_walk hhere rfl hnames
    exact .inl (Path.plain_of_not_idle (hasIdle_relative_dot hne hnames))
  | ok node =>
    cases node with
    | file bytes =>
      obtain rfl := (finds_of_file hnode).mp h
      refine or_iff_not_imp_left.mpr fun hne => ⟨?_, .inl rfl⟩
      unfold Disk.isMisspelt
      rw [hnode]
      exact bne_iff_ne.mpr hne
    | directory =>
      obtain ⟨hmem, -⟩ := (finds_of_directory hnode).mp h
      obtain ⟨names, hnames, rfl⟩ := List.mem_map.mp hmem
      obtain ⟨start, hstart, hthere⟩ := Disk.exists_locate_of_lookUp hnode
      obtain ⟨hne, hnames⟩ := hd.names_of_mem_walk hstart hthere hnames
      have hpattern : Path.isAbsolute pattern = false := by
        refine Bool.eq_false_iff.mpr fun habsolute => ?_
        have hinside := (Disk.locate_eq_ok_iff.mp hstart).1
        simp [Path.join, Path.isInside, habsolute] at hinside
      have hpath := toList_relative_join hpattern hne hnames
      have hplain := Path.hasIdle_intercalate hne hnames
      by_cases hstem : Path.stem pattern = []
      · rw [if_pos hstem] at hpath
        exact .inl (Path.plain_of_not_idle (hpath ▸ hplain))
      · rw [if_neg hstem] at hpath
        cases hidle : Path.hasIdle (Path.stem pattern) with
        | false =>
          refine .inl (Path.plain_of_not_idle ?_)
          rw [hpath, Path.hasIdle_append_slash, hidle, hplain, Bool.or_self]
        | true =>
          refine .inr ⟨?_, .inr ?_⟩
          · unfold Disk.isMisspelt
            simp [hnode, hidle, hstem]
          · rw [hpath]
            exact ⟨_, (List.append_cons _ _ _).symm⟩

theorem exists_mem_arrange {paths : List String} (h : path ∈ paths) :
    ∃ listed ∈ arrange paths, Path.same listed path = true :=
  exists_mem_eraseRepsBy Path.same_refl Path.same_trans (List.mem_mergeSort.mpr h)

/-- What is listed are the paths that a pattern finds and that pass the filter as they are spelled.
They are plain unless a pattern is misspelt, which then names the path or the directory that it
begins with. So if no pattern is, then of every path the plain form matches nothing that is
excluded, and what is included. -/
theorem admits_of_discover (hd : d.WellFormed)
    (h : ((f.discover patterns "." : ExceptT LintError (StateT Disk Id) _).run.run d).1 =
      .ok files) :
    (∀ path ∈ files, f.Admits path ∧ ∃ pattern ∈ patterns, f.Finds d pattern path ∧
      (Path.plain path = path ∨ d.isMisspelt pattern = true ∧
        (path = pattern ∨ Path.stem pattern ++ ['/'] <+: path.toList))) ∧
    (∀ path, f.Admits path → (∃ pattern ∈ patterns, f.Finds d pattern path) →
      ∃ listed ∈ files, Path.same listed path = true) ∧
    ((∀ pattern ∈ patterns, d.isMisspelt pattern = false) →
      ∀ path ∈ files, f.Admits (Path.plain path)) := by
  obtain ⟨found, rfl, hfound⟩ := exists_arrange_of_run_discover (Prod.ext h rfl)
  have hlisted : ∀ path ∈ arrange found, f.Admits path ∧
      ∃ pattern ∈ patterns, f.Finds d pattern path :=
    fun path hpath => (hfound path).mp (mem_of_mem_arrange hpath)
  refine ⟨fun path hpath => ?_, fun path hadmits hfinds => ?_, fun hspelt path hpath => ?_⟩
  · obtain ⟨hadmits, pattern, hmem, hfinds⟩ := hlisted path hpath
    exact ⟨hadmits, pattern, hmem, hfinds, hfinds.plain_or hd⟩
  · exact exists_mem_arrange ((hfound path).mpr ⟨hadmits, hfinds⟩)
  · obtain ⟨hadmits, pattern, hmem, hfinds⟩ := hlisted path hpath
    rcases hfinds.plain_or hd with hplain | ⟨hmisspelt, -⟩
    · rwa [hplain]
    · rw [hspelt pattern hmem] at hmisspelt
      cases hmisspelt

/-- Of two files that are named, found in directories and found by a glob, one is excluded. -/
theorem admits_of_discover_docs :
    let d : Disk := .ofNodes
      [(["a.md"], .file []), (["docs"], .directory), (["docs", "b.md"], .file [])]
    let excluded : Pattern := .append (.byte 97) (.append .segment .done)
    let f : Finder := ⟨[], [excluded], defaultExtensions⟩
    let patterns := [".", "./docs/", "a.md", "docs/b.md", "**/*.md"]
    let files := arrange ["docs/b.md", "docs/b.md", "docs/b.md", "docs/b.md"]
    ofGlobs [] ["a*"] = .ok f ∧ d.WellFormed ∧
      ((f.discover patterns "." : ExceptT LintError (StateT Disk Id) _).run.run d).1 = .ok files ∧
      (∀ pattern ∈ patterns, d.isMisspelt pattern = false) ∧
      (∀ path ∈ files, f.Admits (Path.plain path)) ∧
      ∃ listed ∈ files, Path.same listed "docs/b.md" = true := by
  intro d excluded f patterns files
  have hd : d.WellFormed := ⟨by decide, by decide⟩
  have hrun : ((f.discover patterns "." : ExceptT LintError (StateT Disk Id) _).run.run d).1 =
      .ok files := rfl
  have hspelt : ∀ pattern ∈ patterns, d.isMisspelt pattern = false := by decide
  have hnamed : f.Finds d "docs/b.md" "docs/b.md" := rfl
  have hkept : f.Admits "docs/b.md" := ⟨by decide, nofun⟩
  obtain ⟨-, hcomplete, hplain⟩ := admits_of_discover hd hrun
  exact ⟨rfl, hd, hrun, hspelt, hplain hspelt,
    hcomplete "docs/b.md" hkept ⟨"docs/b.md", by simp [patterns], hnamed⟩⟩

/-- A file is excluded, and is named with a dot. -/
theorem discover_excluded :
    let d : Disk := .ofNodes [(["a.md"], .file [120, 10])]
    let excluded : Pattern :=
      .append (.byte 97) (.append (.byte 46) (.append (.byte 109) (.append (.byte 100) .done)))
    let f : Finder := ⟨[], [excluded], defaultExtensions⟩
    ofGlobs [] ["a.md"] = .ok f ∧
      ((f.discover ["./a.md"] "." : ExceptT LintError (StateT Disk Id) _).run.run d).1 =
        .ok ["./a.md"] ∧
      Path.plain "./a.md" = "a.md" ∧ matchesAny f.excluded "a.md" = true := by
  intro d excluded f
  have hfiles : arrange ["./a.md"] = ["./a.md"] := by
    rw [arrange, List.mergeSort_singleton]
    rfl
  have hrun : ((f.discover ["./a.md"] "." : ExceptT LintError (StateT Disk Id) _).run.run d).1 =
      .ok (arrange ["./a.md"]) := rfl
  exact ⟨rfl, hrun.trans (congrArg _ hfiles), by decide, by decide⟩

end Finder
end Tidymark
