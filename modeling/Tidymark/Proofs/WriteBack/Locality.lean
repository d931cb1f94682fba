import Tidymark.Proofs.WriteBack.AllOrNothing

/-! # What processing a file depends on

The file that a path leads to, the place of its copy, and which of the places on the way are
directories decide all that processing the file answers and writes. -/
namespace Tidymark

namespace Disk

/-- The places of the file and of its copy that a path leads to. -/
def places (d : Disk) (path : String) : List (List String) :=
  (d.locate path).toOption.toList ++ (d.locate (backupPath path)).toOption.toList

/-- Two disks that look the same along a path. -/
structure Alike (d e : Disk) (path : String) : Prop where
  through : ∀ s ∈ Path.through path,
    (d.get? s).map FileNode.isDirectory = (e.get? s).map FileNode.isDirectory
  get?_eq : ∀ s ∈ d.places path, d.get? s = e.get? s
  fault?_eq : d.fault? = e.fault?

variable {d e : Disk} {path : String} {target copy : List String} {bytes : List UInt8}

theorem mem_places (h : d.locate path = .ok target) : target ∈ d.places path := by
  simp [places, h, Except.toOption]

theorem copy_mem_places (h : d.locate (backupPath path) = .ok copy) : copy ∈ d.places path := by
  simp [places, h, Except.toOption]

theorem mem_places_iff : target ∈ d.places path ↔
    d.locate path = .ok target ∨ d.locate (backupPath path) = .ok target := by
  unfold places
  cases d.locate path <;> cases d.locate (backupPath path) <;>
    simp [Except.toOption, eq_comm]

namespace Alike

theorem refl (d : Disk) (path : String) : d.Alike d path := ⟨fun _ _ => rfl, fun _ _ => rfl, rfl⟩

theorem locate_eq (h : d.Alike e path) : d.locate path = e.locate path := locate_congr h.through

theorem lookUp_eq (h : d.Alike e path) (action : FileAction) :
    d.lookUp action path = e.lookUp action path := by
  unfold lookUp
  rw [← h.locate_eq, ← h.fault?_eq]
  cases htarget : d.locate path with
  | error error => rfl
  | ok target =>
    simp only [bind, Except.bind, h.get?_eq target (mem_places htarget)]

theorem source_eq (h : d.Alike e path) (options : WriteOptions) :
    d.source options path = e.source options path := by
  simp only [source, read, h.lookUp_eq]

theorem aims (h : d.Alike e path) (haims : d.Aims path target copy bytes) :
    e.Aims path target copy bytes := by
  have htarget : e.locate path = .ok target := h.locate_eq.symm.trans haims.locate_eq
  have hfile : e.get? target = some (.file bytes) :=
    (h.get?_eq target (mem_places haims.locate_eq)).symm.trans haims.get?_eq
  refine ⟨htarget, ?_, hfile, haims.copy_ne⟩
  obtain ⟨above, name, rfl, hcopy⟩ := locate_backupPath haims.locate_eq haims.get?_eq
  obtain ⟨above', name', hsame, hcopy'⟩ := locate_backupPath htarget hfile
  obtain ⟨rfl, hname⟩ := List.append_inj' hsame rfl
  obtain rfl := List.singleton_inj.mp hname
  rw [hcopy', ← hcopy, haims.locate_copy_eq]

theorem conditions_eq (h : d.Alike e path) (haims : d.Aims path target copy bytes) :
    d.conditions copy = e.conditions copy := by
  rw [conditions, conditions, h.fault?_eq, h.get?_eq copy (copy_mem_places haims.locate_copy_eq)]

end Alike
end Disk

/-- Processing a file writes to the file itself, and to a copy that is no directory. -/
def WritesTo (d : Disk) (options : WriteOptions) (path : String) (names : List String) : Prop :=
  d.locate path = .ok names ∧ (d.get? names).map FileNode.isDirectory = some false ∨
    options.backup = true ∧ d.locate (backupPath path) = .ok names ∧
      d.get? names ≠ some .directory

/-- On disks that look the same along a path, processing the file answers and writes the same. -/
theorem exists_effect (p : Pipeline Id) (options : WriteOptions) (d : Disk) (path : String) :
    ∃ outcome writes, (∀ write ∈ writes, WritesTo d options path write.1) ∧
      ∀ e, d.Alike e path →
        Id.run ((processFile p.onDisk options path).run.run e) = (outcome, e.putAll writes) := by
  cases hsource : d.source options path with
  | error error =>
    refine ⟨.error error, [], nofun, fun e he => ?_⟩
    exact processFile_of_unread (he.source_eq options ▸ hsource)
  | ok bytes =>
    obtain ⟨target, copy, haims⟩ := Disk.exists_aims_of_read (read_of_source hsource)
    cases hrun : Id.run (p.run path bytes).run with
    | error error =>
      refine ⟨.error error, [], nofun, fun e he => ?_⟩
      exact processFile_of_unlinted (he.source_eq options ▸ hsource) hrun
    | ok r =>
      rcases hsettle : (d.conditions copy).settle options path bytes target copy r with
        ⟨outcome, writes⟩
      refine ⟨outcome, writes, fun write hmem => ?_, fun e he => ?_⟩
      · rcases (settles hsettle).of_mem hmem with hsame | ⟨hsame, hbackup, hblocked⟩
        · rw [WritesTo, hsame, haims.get?_eq]
          exact .inl ⟨haims.locate_eq, rfl⟩
        · rw [WritesTo, hsame]
          exact .inr ⟨hbackup, haims.locate_copy_eq, ne_of_beq_false hblocked⟩
      · exact processFile_of_linted (he.aims haims) (he.source_eq options ▸ hsource) hrun
          (he.conditions_eq haims ▸ hsettle)

end Tidymark
