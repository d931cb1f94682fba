import Mathlib.Data.List.Lex
import Mathlib.Data.String.Basic
import Tidymark.Proofs.Answer
import Tidymark.Proofs.Dictionary
import Tidymark.Proofs.Disk.Place

/-! # Writing files

What files hold after some of them are written. A file that is not among these holds what it held,
and paths that lead somewhere still lead there. -/
namespace Tidymark.Disk

/-- What is written to files, one after the other. -/
abbrev Writes := List (List String × List UInt8)

def putFile (d : Disk) (write : List String × List UInt8) : Disk := d.put write.1 (.file write.2)

def putAll (d : Disk) (writes : Writes) : Disk := writes.foldl putFile d

/-- What a path leads to. -/
def find? (d : Disk) (path : String) : Option FileNode :=
  match d.locate path with
  | .ok names => d.get? names
  | .error _ => none

variable {d : Disk} {names other target : List String} {path : String} {writes : Writes}

@[simp] theorem get?_nil (d : Disk) : d.get? [] = some .directory := rfl

theorem ne_nil_of_get? (h : d.get? names ≠ some .directory) : names ≠ [] := by
  rintro rfl
  exact h rfl

theorem get?_put_self (h : names ≠ []) (node : FileNode) :
    (d.put names node).get? names = some node := by
  simp [get?, put, List.isEmpty_eq_false_iff.mpr h, Dictionary.get?_insert_self]

theorem get?_put_of_ne (h : other ≠ names) (node : FileNode) :
    (d.put names node).get? other = d.get? other := by
  simp [get?, put, Dictionary.get?_insert_of_ne h]

theorem put_comm (h : names ≠ other) (v w : FileNode) :
    (d.put names v).put other w = (d.put other w).put names v := by
  simp [put, Dictionary.insert_comm h]

@[simp] theorem fault?_putAll (d : Disk) (writes : Writes) :
    (d.putAll writes).fault? = d.fault? := by
  induction writes generalizing d with
  | nil => rfl
  | cons write writes ih => exact ih (d.putFile write)

theorem putAll_append (d : Disk) (writes more : Writes) :
    d.putAll (writes ++ more) = (d.putAll writes).putAll more :=
  List.foldl_append

theorem get?_putAll_of_not_mem (h : ∀ write ∈ writes, write.1 ≠ other) :
    (d.putAll writes).get? other = d.get? other := by
  induction writes generalizing d with
  | nil => rfl
  | cons write writes ih =>
    rw [List.forall_mem_cons] at h
    exact (ih h.2).trans (get?_put_of_ne h.1.symm _)

theorem putAll_put (h : ∀ write ∈ writes, write.1 ≠ names) (node : FileNode) :
    (d.putAll writes).put names node = (d.put names node).putAll writes := by
  induction writes generalizing d with
  | nil => rfl
  | cons write writes ih =>
    rw [List.forall_mem_cons] at h
    exact (ih h.2).trans (congrArg (putAll · writes) (put_comm h.1 _ _))

/-- Writes to different files need no order. -/
theorem putAll_comm {more : Writes} (h : ∀ write ∈ writes, ∀ write' ∈ more, write.1 ≠ write'.1) :
    (d.putAll writes).putAll more = (d.putAll more).putAll writes := by
  induction more generalizing d with
  | nil => rfl
  | cons write' more ih =>
    have hwrite' : ∀ write ∈ writes, write.1 ≠ write'.1 := fun write hmem =>
      h write hmem write' List.mem_cons_self
    have hmore : ∀ write ∈ writes, ∀ write' ∈ more, write.1 ≠ write'.1 :=
      fun write hmem other hother => h write hmem other (List.mem_cons_of_mem _ hother)
    calc ((d.putAll writes).putFile write').putAll more
        = ((d.putFile write').putAll writes).putAll more :=
          congrArg (putAll · more) (putAll_put hwrite' _)
      _ = ((d.putFile write').putAll more).putAll writes := ih hmore

/-- Where only files are overwritten, there are directories where there were some. -/
theorem isDirectory_putAll
    (h : ∀ write ∈ writes, write.1 = other →
      (d.get? other).map FileNode.isDirectory = some false) :
    ((d.putAll writes).get? other).map FileNode.isDirectory =
      (d.get? other).map FileNode.isDirectory := by
  induction writes generalizing d with
  | nil => rfl
  | cons write writes ih =>
    rw [List.forall_mem_cons] at h
    have hput : ((d.putFile write).get? other).map FileNode.isDirectory =
        (d.get? other).map FileNode.isDirectory := by
      by_cases hsame : write.1 = other
      · have hfile := h.1 hsame
        have hne : other ≠ [] := by
          rintro rfl
          cases hfile
        rw [hfile, putFile, hsame, get?_put_self hne]
        rfl
      · rw [putFile, get?_put_of_ne (Ne.symm hsame)]
    exact (ih fun write' hmem hsame => hput.trans (h.2 write' hmem hsame)).trans hput

/-- Where a path leads, it still leads when some files have been written. -/
theorem locate_putAll (h : d.locate path = .ok target)
    (hwrites : ∀ write ∈ writes, d.get? write.1 ≠ some .directory) :
    (d.putAll writes).locate path = .ok target := by
  rw [← h]
  refine locate_congr fun s hs => isDirectory_putAll fun write hmem hsame => ?_
  exact absurd (hsame ▸ directory_of_mem_through h hs) (hwrites write hmem)

theorem find?_of_locate (h : d.locate path = .ok names) : d.find? path = d.get? names := by
  rw [find?, h]

variable {copy : List String} {bytes : List UInt8}

theorem place_of_locate (h : d.locate path = .ok target)
    (hplace : d.get? target ≠ some .directory) : d.place path = .ok target := by
  refine bind_eq_ok_iff.mpr ⟨target, h, ?_⟩
  split
  · contradiction
  · rfl

theorem place_of_directory (h : d.locate path = .ok target)
    (hplace : d.get? target = some .directory) : d.place path = .error .isDirectory := by
  simp only [place, h, bind, Except.bind, hplace]

/-- A path leads to a file with these bytes, and the copy of the file has a place of its own. -/
structure Aims (d : Disk) (path : String) (target copy : List String) (bytes : List UInt8) :
    Prop where
  locate_eq : d.locate path = .ok target
  locate_copy_eq : d.locate (backupPath path) = .ok copy
  get?_eq : d.get? target = some (.file bytes)
  copy_ne : copy ≠ target

theorem exists_aims_of_read (h : d.read path = .ok bytes) :
    ∃ target copy, d.Aims path target copy bytes := by
  obtain ⟨node, hnode, h⟩ := bind_eq_ok_iff.mp h
  obtain ⟨target, htarget, hnode⟩ := bind_eq_ok_iff.mp hnode
  cases node with
  | directory => cases h
  | file held =>
    obtain rfl := Except.ok.inj h
    have hfile : d.get? target = some (.file held) := by
      split at hnode
      · cases hnode
      · rename_i node hnode'
        split at hnode
        · cases hnode
        · rw [hnode', Except.ok.inj hnode]
    obtain ⟨above, name, rfl, hcopy⟩ := locate_backupPath htarget hfile
    exact ⟨_, _, htarget, hcopy, hfile, fun hsame => by simp at hsame⟩

namespace Aims

theorem putCopy (h : d.Aims path target copy bytes) (hcopy : d.get? copy ≠ some .directory)
    (saved : List UInt8) : (d.putFile (copy, saved)).Aims path target copy bytes := by
  have hwrites : ∀ write ∈ [(copy, saved)], d.get? write.1 ≠ some .directory := by simpa using hcopy
  exact ⟨locate_putAll h.locate_eq hwrites, locate_putAll h.locate_copy_eq hwrites,
    (get?_put_of_ne h.copy_ne.symm _).trans h.get?_eq, h.copy_ne⟩

theorem target_ne_nil (h : d.Aims path target copy bytes) : target ≠ [] :=
  ne_nil_of_get? (d := d) (by simp [h.get?_eq])

theorem replace_eq (h : d.Aims path target copy bytes) (content : List UInt8) :
    d.replace path content =
      if (d.fault? .replace target).isSome then (.error fault, d)
      else (.ok (), d.putFile (target, content)) := by
  have hfile : d.get? target ≠ some .directory := by simp [h.get?_eq]
  rw [replace, place_of_locate h.locate_eq hfile]
  rfl

theorem write_eq_of_directory (h : d.Aims path target copy bytes)
    (hcopy : d.get? copy = some .directory) (saved : List UInt8) :
    d.write (backupPath path) saved = (.error .isDirectory, d) := by
  rw [write, place_of_directory h.locate_copy_eq hcopy]

theorem write_eq (h : d.Aims path target copy bytes) (hcopy : d.get? copy ≠ some .directory)
    (saved : List UInt8) :
    d.write (backupPath path) saved =
      match d.fault? .write copy with
      | none => (.ok (), d.putFile (copy, saved))
      | some .refused => (.error fault, d)
      | some (.torn kept) => (.error fault, d.putFile (copy, saved.take kept)) := by
  rw [write, place_of_locate h.locate_copy_eq hcopy]
  rfl

end Aims

end Tidymark.Disk
