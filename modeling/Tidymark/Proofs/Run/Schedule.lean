import Tidymark.Proofs.WriteBack.Locality
import Tidymark.Rules.HashSpace
import Tidymark.Run

/-! # The order of work

Workers take files in any order, and outcomes arrive in any order. If the files and their copies are
different files, what is done with one of them is the same before and after the others, and the
report lists the outcomes in the order of the paths. -/
namespace Tidymark

/-- Every file is worked on once, and every outcome arrives once. -/
structure Schedule.Covers (s : Schedule) (n : Nat) : Prop where
  work : s.work.Perm (List.range n)
  arrival : s.arrival.Perm (List.range n)

theorem WritesTo.mem_places {d : Disk} {options : WriteOptions} {path : String}
    {names : List String} (h : WritesTo d options path names) : names ∈ d.places path :=
  Disk.mem_places_iff.mpr (h.imp (·.1) (·.2.1))

namespace Disk

/-- Two paths lead to different files, and so do their copies. -/
def Differ (d : Disk) (p q : String) : Prop := ∀ s ∈ d.places p, s ∉ d.places q

/-- A path goes through the place where the copy of another goes, and it is not there yet. -/
def Crosses (d : Disk) (p q : String) : Prop :=
  ∃ s ∈ Path.through p, d.locate (backupPath q) = .ok s ∧ d.get? s = none

variable {d e : Disk} {options : WriteOptions} {path other : String} {writes : Writes}

/-- What is written for one path does not matter to another. -/
theorem Alike.putAll (h : d.Alike e path) (hfiles : d.Differ path other)
    (hcross : options.backup = true → ¬ d.Crosses path other)
    (hwrites : ∀ write ∈ writes, WritesTo d options other write.1) :
    d.Alike (e.putAll writes) path where
  through s hs := by
    rw [isDirectory_putAll fun write hmem hsame => ?_, h.through s hs]
    rw [← h.through s hs]
    rcases hwrites write hmem with ⟨-, hfile⟩ | ⟨hbackup, hcopy, hplace⟩
    · rw [← hsame, hfile]
    · rw [hsame] at hcopy hplace
      cases hnode : d.get? s with
      | none => exact absurd ⟨s, hs, hcopy, hnode⟩ (hcross hbackup)
      | some node =>
        cases node with
        | file bytes => rfl
        | directory => exact absurd hnode hplace
  get?_eq s hs := by
    rw [get?_putAll_of_not_mem fun write hmem hsame => ?_, h.get?_eq s hs]
    exact hfiles s hs (hsame ▸ (hwrites write hmem).mem_places)
  fault?_eq := by rw [fault?_putAll, h.fault?_eq]

end Disk

namespace Runner

def pathAt (paths : List String) (i : Nat) : String := paths.getD i ""

/-- No path leads to a file of another, and none crosses the copy of another. -/
def Apart (d : Disk) (options : WriteOptions) (paths : List String) : Prop :=
  ∀ i < paths.length, ∀ j < paths.length, i ≠ j →
    d.Differ (pathAt paths i) (pathAt paths j) ∧
      (options.backup = true → ¬ d.Crosses (pathAt paths i) (pathAt paths j))

/-- What processing each path answers and writes on any disk that looks like `d` along the path. -/
structure Effects (p : Pipeline Id) (options : WriteOptions) (d : Disk)
    (effect : String → Except LintError PipelineResult × Disk.Writes) : Prop where
  writesTo : ∀ path, ∀ write ∈ (effect path).2, WritesTo d options path write.1
  run_eq : ∀ path e, d.Alike e path →
    Id.run ((processFile p.onDisk options path).run.run e) =
      ((effect path).1, e.putAll (effect path).2)

variable {p : Pipeline Id} {options : WriteOptions} {d e : Disk} {paths : List String}
variable {effect : String → Except LintError PipelineResult × Disk.Writes}

theorem exists_effects (p : Pipeline Id) (options : WriteOptions) (d : Disk) :
    ∃ effect, Effects p options d effect := by
  choose outcome writes hwrites hrun using exists_effect p options d
  exact ⟨fun path => (outcome path, writes path), hwrites, hrun⟩

/-- A run that nothing cancels works on every file. -/
theorem run_processOne (r : Runner (StateT Disk Id)) (path : String) (d : Disk) :
    Id.run ((r.processOne path).run d) =
      Id.run ((processFile r.pipeline r.options path).run.run d) := rfl

def writesOf (effect : String → Except LintError PipelineResult × Disk.Writes)
    (paths : List String) (jobs : List Nat) : Disk.Writes :=
  jobs.flatMap fun i => (effect (pathAt paths i)).2

theorem apart_of_pairwise (hfiles : paths.Pairwise d.Differ)
    (hcrosses : options.backup = true →
      paths.Pairwise fun path other => ¬ d.Crosses path other ∧ ¬ d.Crosses other path) :
    Apart d options paths := by
  intro i hi j hj hne
  have hat {k : Nat} (hk : k < paths.length) : pathAt paths k = paths[k] := by simp [pathAt, hk]
  rw [hat hi, hat hj]
  rw [List.pairwise_iff_getElem] at hfiles hcrosses
  rcases Nat.lt_or_gt_of_ne hne with hlt | hlt
  · exact ⟨hfiles i j hi hj hlt, fun hbackup => (hcrosses hbackup i j hi hj hlt).1⟩
  · exact ⟨fun s hs hs' => hfiles j i hj hi hlt s hs' hs,
      fun hbackup => (hcrosses hbackup j i hj hi hlt).2⟩

theorem filterMap_getElem?_range {α β : Type} (l : List α) (f : α → β) :
    (List.range l.length).filterMap (fun i => l[i]?.map f) = l.map f := by
  induction l with
  | nil => rfl
  | cons a l ih =>
    rw [List.length_cons, List.range_succ_eq_map, List.filterMap_cons, List.filterMap_map]
    exact congrArg (f a :: ·) ih

/-- Outcomes that have all arrived are listed in the order of the paths. -/
theorem collect_eq {arrived : List (Nat × Except LintError PipelineResult)}
    (outcome : String → Except LintError PipelineResult)
    (harrived : arrived.Perm
      ((List.range paths.length).map fun i => (i, outcome (pathAt paths i)))) :
    collect paths arrived = paths.map fun path => ⟨path, outcome path⟩ := by
  have hsorted : (arrived.mergeSort fun a b => a.1 ≤ b.1) =
      (List.range paths.length).map fun i => (i, outcome (pathAt paths i)) := by
    have hperm := (List.mergeSort_perm arrived fun a b => a.1 ≤ b.1).trans harrived
    have hle : (arrived.mergeSort fun a b => a.1 ≤ b.1).Pairwise fun a b =>
        decide (a.1 ≤ b.1) = true := by
      refine List.pairwise_mergeSort (fun a b c => ?_) (fun a b => ?_) arrived
      · simpa using Nat.le_trans
      · simpa using Nat.le_total a.1 b.1
    simp only [decide_eq_true_eq] at hle
    have hrange : ((List.range paths.length).map fun i => (i, outcome (pathAt paths i))).Pairwise
        fun a b => a.1 ≤ b.1 := List.pairwise_map.mpr List.pairwise_le_range
    refine hperm.eq_of_pairwise (fun a b ha hb hab hba => ?_) hle hrange
    obtain ⟨i, -, rfl⟩ := List.mem_map.mp (hperm.mem_iff.mp ha)
    obtain ⟨j, -, rfl⟩ := List.mem_map.mp hb
    obtain rfl : i = j := Nat.le_antisymm hab hba
    rfl
  rw [collect, hsorted, List.filterMap_map, ← filterMap_getElem?_range paths]
  refine List.filterMap_congr fun i hi => ?_
  have hi : i < paths.length := List.mem_range.mp hi
  simp [pathAt, hi]

theorem perm_arrived {α : Type} {l : List α} {arrival : List Nat}
    (harrival : arrival.Perm (List.range l.length)) : (arrival.filterMap (l[·]?)).Perm l := by
  have hall := filterMap_getElem?_range l id
  simp only [Option.map_id, id_eq, List.map_id] at hall
  exact (harrival.filterMap _).trans (.of_eq hall)

section
variable (hpaths : Apart d options paths) (heffects : Effects p options d effect)
include hpaths heffects

theorem alike_writesOf {i : Nat} (hi : i < paths.length) {jobs : List Nat}
    (hjobs : ∀ j ∈ jobs, j < paths.length ∧ i ≠ j) (he : d.Alike e (pathAt paths i)) :
    d.Alike (e.putAll (writesOf effect paths jobs)) (pathAt paths i) := by
  induction jobs generalizing e with
  | nil => exact he
  | cons j jobs ih =>
    rw [List.forall_mem_cons] at hjobs
    obtain ⟨⟨hj, hne⟩, hjobs⟩ := hjobs
    obtain ⟨hfiles, hcross⟩ := hpaths i hi j hj hne
    rw [writesOf, List.flatMap_cons, Disk.putAll_append]
    exact ih hjobs (he.putAll hfiles hcross (heffects.writesTo _))

/-- The jobs of a schedule answer what they answer alone. -/
theorem run_work (done jobs : List Nat) (hnodup : (done ++ jobs).Nodup)
    (hlt : ∀ i ∈ done ++ jobs, i < paths.length) :
    Id.run ((work ⟨p.onDisk, options⟩ paths jobs).run (d.putAll (writesOf effect paths done))) =
      (jobs.map fun i => (i, (effect (pathAt paths i)).1),
        d.putAll (writesOf effect paths (done ++ jobs))) := by
  induction jobs generalizing done with
  | nil =>
    rw [List.append_nil]
    rfl
  | cons i jobs ih =>
    have hi : i < paths.length := hlt i (by simp)
    have hpath : paths[i]? = some (pathAt paths i) := by simp [pathAt, hi]
    have hdone : ∀ j ∈ done, j < paths.length ∧ i ≠ j := fun j hj =>
      ⟨hlt j (by simp [hj]), fun hsame => List.disjoint_of_nodup_append hnodup hj (by simp [hsame])⟩
    have hjob := heffects.run_eq (pathAt paths i) _
      (alike_writesOf hpaths heffects hi hdone (.refl d _))
    have hwrites : (d.putAll (writesOf effect paths done)).putAll (effect (pathAt paths i)).2 =
        d.putAll (writesOf effect paths (done ++ [i])) := by
      rw [← Disk.putAll_append]
      simp [writesOf]
    have hassoc : done ++ i :: jobs = (done ++ [i]) ++ jobs := by simp
    rw [hassoc] at hnodup hlt ⊢
    have hrest := ih (done ++ [i]) hnodup hlt
    rw [work, hpath]
    dsimp only
    rw [StateT.run_bind, Id.run_bind, run_processOne, hjob, hwrites, StateT.run_bind, Id.run_bind,
      hrest]
    rfl

theorem putAll_writesOf_perm {jobs others : List Nat} (hperm : jobs.Perm others)
    (hlt : ∀ i ∈ jobs, i < paths.length) :
    d.putAll (writesOf effect paths jobs) = d.putAll (writesOf effect paths others) := by
  have hfoldl (jobs : List Nat) : d.putAll (writesOf effect paths jobs) =
      jobs.foldl (fun d i => d.putAll (effect (pathAt paths i)).2) d := List.foldl_flatMap
  rw [hfoldl, hfoldl]
  refine hperm.foldl_eq' (fun i hi j hj e => ?_) d
  by_cases hsame : i = j
  · rw [hsame]
  · refine Disk.putAll_comm fun write hwrite write' hwrite' hshared => ?_
    have hfiles := (hpaths i (hlt i hi) j (hlt j hj) hsame).1
    exact hfiles _ (heffects.writesTo _ write hwrite).mem_places
      (hshared ▸ (heffects.writesTo _ write' hwrite').mem_places)

/-- What a run answers and writes, whatever its schedule. -/
theorem run_run {schedule : Schedule} (hcovers : schedule.Covers paths.length) :
    Id.run ((run ⟨p.onDisk, options⟩ schedule paths).run d) =
      let files := paths.map fun path => ⟨path, (effect path).1⟩
      (⟨files, files.any isCancelledReport⟩,
        d.putAll (writesOf effect paths (List.range paths.length))) := by
  have hlt : ∀ i ∈ schedule.work, i < paths.length := fun i hi =>
    List.mem_range.mp (hcovers.work.mem_iff.mp hi)
  have hwork := run_work hpaths heffects [] schedule.work
    (hcovers.work.nodup_iff.mpr List.nodup_range) hlt
  have hlength : (schedule.work.map fun i => (i, (effect (pathAt paths i)).1)).length =
      paths.length := by rw [List.length_map, hcovers.work.length_eq, List.length_range]
  have hfiles := collect_eq (fun path => (effect path).1)
    ((perm_arrived (hlength ▸ hcovers.arrival)).trans (hcovers.work.map _))
  have hdone : d.putAll (writesOf effect paths []) = d := rfl
  rw [hdone] at hwork
  rw [run, StateT.run_bind, Id.run_bind, hwork]
  dsimp only
  rw [hfiles, List.nil_append, putAll_writesOf_perm hpaths heffects hcovers.work hlt]
  rfl

end

/-- The schedule of a run decides neither its report nor what it leaves on the disk. The report has
one entry for each path, in order: what comes of the path alone. -/
structure Independent (p : Pipeline Id) (options : WriteOptions) (d : Disk) (paths : List String) :
    Prop where
  run_eq : ∀ s t : Schedule, s.Covers paths.length → t.Covers paths.length →
    Id.run ((run ⟨p.onDisk, options⟩ s paths).run d) =
      Id.run ((run ⟨p.onDisk, options⟩ t paths).run d)
  files_eq : ∀ s : Schedule, s.Covers paths.length →
    (Id.run ((run ⟨p.onDisk, options⟩ s paths).run d)).1.files =
      paths.map fun path => ⟨path, (Id.run ((processFile p.onDisk options path).run.run d)).1⟩

/-- If the files and their copies are different files, and no path goes through a place where
another file is copied to, runs do not depend on their schedules. -/
theorem independent_of_pairwise (p : Pipeline Id) (options : WriteOptions)
    (hfiles : paths.Pairwise d.Differ)
    (hcrosses : options.backup = true →
      paths.Pairwise fun path other => ¬ d.Crosses path other ∧ ¬ d.Crosses other path) :
    Independent p options d paths := by
  obtain ⟨effect, heffects⟩ := exists_effects p options d
  have hpaths := apart_of_pairwise hfiles hcrosses
  refine ⟨fun s t hs ht => ?_, fun s hs => ?_⟩
  · rw [run_run hpaths heffects hs, run_run hpaths heffects ht]
  · rw [run_run hpaths heffects hs]
    exact List.map_congr_left fun path _ => by rw [heffects.run_eq path d (.refl d path)]

/-- One file is fixed and one has nothing to fix, in either order. -/
theorem independent_of_pairwise_two :
    let p : Pipeline Id :=
      ⟨fun _ => .ok (.branch .root ⟨0, 0⟩ []), [.ofRule Rules.HashSpace.rule], ⟨true, 10⟩⟩
    let d : Disk := .ofNodes [(["a.md"], .file [35, 65]), (["b.md"], .file [65])]
    ["a.md", "b.md"].Pairwise d.Differ ∧
      (["a.md", "b.md"].Pairwise fun path other =>
        ¬ d.Crosses path other ∧ ¬ d.Crosses other path) ∧
      Independent p ⟨false, true, 100⟩ d ["a.md", "b.md"] := by
  intro p d
  have hfiles : ["a.md", "b.md"].Pairwise d.Differ := by
    unfold Disk.Differ
    decide
  have hcrosses : ["a.md", "b.md"].Pairwise fun path other =>
      ¬ d.Crosses path other ∧ ¬ d.Crosses other path := by
    unfold Disk.Crosses
    decide
  exact ⟨hfiles, hcrosses, independent_of_pairwise p _ hfiles fun _ => hcrosses⟩

/-- A path that goes through a place where another file is copied to leads nowhere, but why depends
on whether the copy is there. -/
theorem not_independent_of_crosses :
    let p : Pipeline Id :=
      ⟨fun _ => .ok (.branch .root ⟨0, 0⟩ []), [.ofRule Rules.HashSpace.rule], ⟨true, 10⟩⟩
    let d : Disk := .ofNodes [(["a.md"], .file [35, 65])]
    let paths := ["a.md", "a.md.bak/b.md"]
    (paths.flatMap fun path => [Path.place? path, Path.place? (backupPath path)]).Nodup ∧
      paths.Pairwise d.Differ ∧ ¬ Independent p ⟨false, true, 100⟩ d paths := by
  intro p d paths
  refine ⟨by decide, by unfold Disk.Differ; decide, fun h => ?_⟩
  let fixed : PipelineResult := ⟨"a.md", ['#', ' ', 'A'], true, [], 2, 1, [], [], true⟩
  let lost (reason : String) : Except LintError PipelineResult :=
    .error (.file ("Failed to read metadata for a.md.bak/b.md: " ++ reason))
  have hwork : (Id.run ((work ⟨p.onDisk, ⟨false, true, 100⟩⟩ paths [0, 1]).run d)).1 =
      [(0, .ok fixed), (1, lost "Not a directory (os error 20)")] := by
    change (Id.run ((do
      let outcome ← processOne _ "a.md"
      let others ← (do
        let outcome ← processOne _ "a.md.bak/b.md"
        pure [(1, outcome)] : StateT Disk Id _)
      pure ((0, outcome) :: others) : StateT Disk Id _).run d)).1 = _
    rw [StateT.run_bind, Id.run_bind, run_processOne, processFile_hash]
    rfl
  have hfiles := h.files_eq (.inOrder 2) ⟨.refl _, .refl _⟩
  change collect paths ([0, 1].filterMap
    ((Id.run ((work ⟨p.onDisk, ⟨false, true, 100⟩⟩ paths [0, 1]).run d)).1[·]?)) = _ at hfiles
  have hcollect : collect paths [(0, .ok fixed), (1, lost "Not a directory (os error 20)")] =
      [⟨"a.md", .ok fixed⟩, ⟨"a.md.bak/b.md", lost "Not a directory (os error 20)"⟩] := by
    rw [collect, List.mergeSort_of_pairwise (by simp)]
    rfl
  rw [hwork] at hfiles
  have hlost : lost "Not a directory (os error 20)" =
      lost "No such file or directory (os error 2)" :=
    congrArg FileReport.outcome (List.cons.inj (List.cons.inj (hcollect.symm.trans hfiles)).2).1
  simp [lost] at hlost

end Runner
end Tidymark
