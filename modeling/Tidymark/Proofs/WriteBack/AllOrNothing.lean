import Tidymark.Proofs.Pipeline.Pass
import Tidymark.Proofs.WriteBack.Steps
import Tidymark.Rules.HashSpace

/-! # Writing back is all or nothing

Whatever operations on files fail, a file that is processed holds its old bytes or the final
content, and it is not overwritten before its old bytes are in the copy. -/
namespace Tidymark

open MonadAttach (CanReturn)

/-- How making a copy ends. -/
inductive Saves (c : Conditions) (options : WriteOptions) (bytes : List UInt8)
    (copy : List String) : Except LintError Unit → Disk.Writes → Prop
  | without (hbackup : options.backup = false) : Saves c options bytes copy (.ok ()) []
  | saved (hbackup : options.backup = true) (hblocked : c.blocked = false) :
      Saves c options bytes copy (.ok ()) [(copy, bytes)]
  | refused {path reason : String} : Saves c options bytes copy (.error (.backup path reason)) []
  | torn {path reason : String} (hbackup : options.backup = true) (hblocked : c.blocked = false)
      (part : List UInt8) :
      Saves c options bytes copy (.error (.backup path reason)) [(copy, part)]

/-- How writing back ends. The target is written to last, and only if everything else went well. -/
inductive Settles (c : Conditions) (options : WriteOptions) (bytes : List UInt8)
    (target copy : List String) (r : PipelineResult) :
    Except LintError PipelineResult → Disk.Writes → Prop
  | kept (h : r.changed = false ∨ options.dryRun = true) :
      Settles c options bytes target copy r (.ok r) []
  | unsaved {e : LintError} {saved : Disk.Writes} (hdry : options.dryRun = false)
      (hsaved : Saves c options bytes copy (.error e) saved) :
      Settles c options bytes target copy r (.error e) saved
  | unwritten {message : String} {saved : Disk.Writes} (hdry : options.dryRun = false)
      (hsaved : Saves c options bytes copy (.ok ()) saved) :
      Settles c options bytes target copy r (.error (.file message)) saved
  | written {saved : Disk.Writes} (hchanged : r.changed = true) (hdry : options.dryRun = false)
      (hsaved : Saves c options bytes copy (.ok ()) saved) :
      Settles c options bytes target copy r (.ok { r with written := true })
        (saved ++ [(target, Text.encode r.finalContent)])

section
variable (c : Conditions) (options : WriteOptions) (path : String) (bytes : List UInt8)
variable (target copy : List String) (r : PipelineResult)

theorem saves : Saves c options bytes copy (c.save options path bytes copy).1
    (c.save options path bytes copy).2 := by
  unfold Conditions.save
  split
  · rename_i hbackup
    split
    · exact .refused
    · rename_i hblocked
      have hblocked : c.blocked = false := Bool.eq_false_iff.mpr hblocked
      split
      · exact .saved hbackup hblocked
      · exact .refused
      · exact .torn hbackup hblocked _
  · rename_i hbackup
    exact .without (Bool.eq_false_iff.mpr hbackup)

variable {c options path bytes target copy r}
variable {outcome : Except LintError PipelineResult} {writes : Disk.Writes}

theorem settles (h : c.settle options path bytes target copy r = (outcome, writes)) :
    Settles c options bytes target copy r outcome writes := by
  have hsaves := saves c options path bytes copy
  unfold Conditions.settle at h
  split at h
  · rename_i hkept
    obtain ⟨rfl, rfl⟩ := Prod.mk.inj h
    exact .kept (by simpa using hkept)
  · rename_i hchanged
    obtain ⟨hchanged, hdry⟩ : r.changed = true ∧ options.dryRun = false := by
      simpa using hchanged
    split at h
    · rename_i hsave
      rw [hsave] at hsaves
      obtain ⟨rfl, rfl⟩ := Prod.mk.inj h
      exact .unsaved hdry hsaves
    · rename_i hsave
      rw [hsave] at hsaves
      unfold Conditions.overwrite at h
      split at h
      · obtain ⟨rfl, rfl⟩ := Prod.mk.inj h
        exact .unwritten hdry hsaves
      · obtain ⟨rfl, rfl⟩ := Prod.mk.inj h
        exact .written hchanged hdry hsaves

end

/-- How processing a file ends. -/
inductive Processed {n : Type → Type} [Monad n] [MonadAttach n] [MonadCancel n] (p : Pipeline n)
    (options : WriteOptions) (path : String) (d : Disk) :
    Except LintError PipelineResult → Disk → Prop
  | unread {e : LintError} (h : d.source options path = .error e) :
      Processed p options path d (.error e) d
  | unlinted {e : LintError} {bytes : List UInt8} (hbytes : d.source options path = .ok bytes)
      (h : CanReturn (p.run path bytes).run (.error e)) : Processed p options path d (.error e) d
  | settled {bytes : List UInt8} {target copy : List String} {r : PipelineResult}
      {outcome : Except LintError PipelineResult} {writes : Disk.Writes}
      (hbytes : d.source options path = .ok bytes) (haims : d.Aims path target copy bytes)
      (h : CanReturn (p.run path bytes) r)
      (hsettle : (d.conditions copy).settle options path bytes target copy r = (outcome, writes)) :
      Processed p options path d outcome (d.putAll writes)

section
variable {n : Type → Type} [Monad n] [LawfulMonad n] [MonadAttach n] [LawfulMonadAttach n]
variable [MonadCancel n] {p : Pipeline n} {options : WriteOptions} {path : String} {d d' : Disk}
variable {outcome : Except LintError PipelineResult}

theorem processed (h : CanReturn ((processFile p.onDisk options path).run.run d)
    (outcome, d')) : Processed p options path d outcome d' := by
  rw [run_processFile] at h
  split at h
  · rename_i e hsource
    obtain ⟨rfl, rfl⟩ := Prod.mk.inj (canReturn_pure h)
    exact .unread hsource
  · rename_i bytes hsource
    obtain ⟨answer, hanswer, h⟩ := canReturn_bind h
    cases answer with
    | error e =>
      obtain ⟨rfl, rfl⟩ := Prod.mk.inj (canReturn_pure h)
      exact .unlinted hsource hanswer
    | ok r =>
      obtain ⟨target, copy, haims⟩ := Disk.exists_aims_of_read (read_of_source hsource)
      have hback := answers_writeBack (n := n) haims options r
      rw [Answers] at hback
      dsimp only at h
      rw [hback] at h
      obtain ⟨rfl, rfl⟩ := Prod.mk.inj (canReturn_pure h)
      exact .settled hsource haims hanswer rfl

end

namespace Saves

variable {c : Conditions} {options : WriteOptions} {bytes : List UInt8} {copy : List String}
variable {answer : Except LintError Unit} {saved : Disk.Writes}

theorem of_mem (h : Saves c options bytes copy answer saved) {write : List String × List UInt8}
    (hmem : write ∈ saved) : write.1 = copy ∧ options.backup = true ∧ c.blocked = false := by
  cases h with
  | without => cases hmem
  | saved hbackup hblocked =>
    obtain rfl := List.mem_singleton.mp hmem
    exact ⟨rfl, hbackup, hblocked⟩
  | refused => cases hmem
  | torn hbackup hblocked part =>
    obtain rfl := List.mem_singleton.mp hmem
    exact ⟨rfl, hbackup, hblocked⟩

end Saves

namespace Settles

variable {c : Conditions} {options : WriteOptions} {bytes : List UInt8}
variable {target copy : List String} {r : PipelineResult}
variable {outcome : Except LintError PipelineResult} {writes : Disk.Writes}

theorem of_mem (h : Settles c options bytes target copy r outcome writes)
    {write : List String × List UInt8} (hmem : write ∈ writes) :
    write.1 = target ∨ write.1 = copy ∧ options.backup = true ∧ c.blocked = false := by
  cases h with
  | kept => cases hmem
  | unsaved _ hsaved => exact .inr (hsaved.of_mem hmem)
  | unwritten _ hsaved => exact .inr (hsaved.of_mem hmem)
  | written _ _ hsaved =>
    rcases List.mem_append.mp hmem with hmem | hmem
    · exact .inr (hsaved.of_mem hmem)
    · exact .inl (congrArg Prod.fst (List.mem_singleton.mp hmem))

end Settles

/-- What becomes of a file that is processed. -/
structure AllOrNothing (options : WriteOptions) (path : String) (before after : Disk)
    (outcome : Except LintError PipelineResult) : Prop where
  old_or_final : after.find? path = before.find? path ∨
    ∃ r, outcome = .ok r ∧ after.find? path = some (.file (Text.encode r.finalContent))
  old_of_error : ∀ e, outcome = .error e → after.find? path = before.find? path
  same_of_dryRun : options.dryRun = true → after = before
  same_of_unchanged : ∀ r, outcome = .ok r → r.changed = false → after = before
  /-- The copy holds the bytes that were read. -/
  saved : options.backup = true → after.find? path ≠ before.find? path →
    ∃ bytes, before.read path = .ok bytes ∧
      after.find? (backupPath path) = some (.file bytes)
  written_iff : ∀ r, outcome = .ok r →
    (r.written = true ↔ after.find? path ≠ before.find? path)
  /-- Only the file and its copy are written to. -/
  others : ∀ names, after.get? names ≠ before.get? names →
    before.locate path = .ok names ∨
      options.backup = true ∧ before.locate (backupPath path) = .ok names

section
variable {options : WriteOptions} {path : String} {d : Disk}
variable {outcome : Except LintError PipelineResult}

theorem allOrNothing_self (h : ∀ r, outcome = .ok r → r.written = false) :
    AllOrNothing options path d d outcome where
  old_or_final := .inl rfl
  old_of_error _ _ := rfl
  same_of_dryRun _ := rfl
  same_of_unchanged _ _ _ := rfl
  saved _ hne := absurd rfl hne
  written_iff r hr := by simp [h r hr]
  others _ hne := absurd rfl hne

theorem allOrNothing_of_error {after : Disk} {e : LintError} (hdry : options.dryRun = false)
    (hsame : after.find? path = d.find? path)
    (hothers : ∀ names, after.get? names ≠ d.get? names →
      d.locate path = .ok names ∨ options.backup = true ∧ d.locate (backupPath path) = .ok names) :
    AllOrNothing options path d after (.error e) where
  old_or_final := .inl hsame
  old_of_error _ _ := hsame
  same_of_dryRun h := by simp [hdry] at h
  same_of_unchanged _ h := nomatch h
  saved _ hne := absurd hsame hne
  written_iff _ h := nomatch h
  others := hothers

variable {target copy : List String} {bytes : List UInt8} {writes : Disk.Writes}
variable {r : PipelineResult}

/-- What is written leaves both paths where they lead. -/
theorem Settles.aims (haims : d.Aims path target copy bytes)
    (h : Settles (d.conditions copy) options bytes target copy r outcome writes) :
    (d.putAll writes).locate path = .ok target ∧
      (d.putAll writes).locate (backupPath path) = .ok copy := by
  have hwrites : ∀ write ∈ writes, d.get? write.1 ≠ some .directory := by
    intro write hmem
    rcases h.of_mem hmem with hsame | ⟨hsame, -, hblocked⟩
    · simp [hsame, haims.get?_eq]
    · rw [hsame]
      exact ne_of_beq_false hblocked
  exact ⟨Disk.locate_putAll haims.locate_eq hwrites,
    Disk.locate_putAll haims.locate_copy_eq hwrites⟩

theorem allOrNothing_of_settles (haims : d.Aims path target copy bytes)
    (hread : d.read path = .ok bytes) (hwritten : r.written = false)
    (hdiffers : r.changed = true → Text.encode r.finalContent ≠ bytes)
    (h : Settles (d.conditions copy) options bytes target copy r outcome writes) :
    AllOrNothing options path d (d.putAll writes) outcome := by
  obtain ⟨htarget, hcopy⟩ := h.aims haims
  have hbefore : d.find? path = some (.file bytes) :=
    (Disk.find?_of_locate haims.locate_eq).trans haims.get?_eq
  have hafter : (d.putAll writes).find? path = (d.putAll writes).get? target :=
    Disk.find?_of_locate htarget
  have hothers : ∀ names, (d.putAll writes).get? names ≠ d.get? names →
      d.locate path = .ok names ∨
        options.backup = true ∧ d.locate (backupPath path) = .ok names := by
    intro names hne
    by_contra hnone
    rw [not_or] at hnone
    refine hne (Disk.get?_putAll_of_not_mem fun write hmem hsame => ?_)
    rcases h.of_mem hmem with htarget | ⟨hcopy, hbackup, -⟩
    · exact hnone.1 (haims.locate_eq.trans (congrArg _ (htarget.symm.trans hsame)))
    · exact hnone.2 ⟨hbackup, haims.locate_copy_eq.trans (congrArg _ (hcopy.symm.trans hsame))⟩
  have hspared {answer : Except LintError Unit} {saved : Disk.Writes}
      (hsaved : Saves (d.conditions copy) options bytes copy answer saved) :
      (d.putAll saved).get? target = d.get? target :=
    Disk.get?_putAll_of_not_mem fun write hmem hsame =>
      haims.copy_ne ((hsaved.of_mem hmem).1.symm.trans hsame)
  cases h with
  | kept => exact allOrNothing_self fun r' hr' => by rw [← Except.ok.inj hr', hwritten]
  | unsaved hdry hsaved =>
    refine allOrNothing_of_error hdry ?_ hothers
    rw [hafter, hspared hsaved, Disk.find?_of_locate haims.locate_eq]
  | unwritten hdry hsaved =>
    refine allOrNothing_of_error hdry ?_ hothers
    rw [hafter, hspared hsaved, Disk.find?_of_locate haims.locate_eq]
  | @written saved hchanged hdry hsaved =>
    have hfinal : (d.putAll (saved ++ [(target, Text.encode r.finalContent)])).find? path =
        some (.file (Text.encode r.finalContent)) := by
      rw [hafter, Disk.putAll_append]
      exact Disk.get?_put_self haims.target_ne_nil _
    have hoverwritten :
        (d.putAll (saved ++ [(target, Text.encode r.finalContent)])).find? path ≠ d.find? path := by
      rw [hfinal, hbefore]
      simpa using hdiffers hchanged
    refine ⟨.inr ⟨_, rfl, hfinal⟩, nofun, ?_, ?_, fun hbackup _ => ?_, ?_, hothers⟩
    · simp [hdry]
    · intro r' hr' hunchanged
      rw [← Except.ok.inj hr'] at hunchanged
      exact absurd (hchanged.symm.trans hunchanged) nofun
    · refine ⟨bytes, hread, ?_⟩
      rw [Disk.find?_of_locate hcopy, Disk.putAll_append]
      refine (Disk.get?_put_of_ne haims.copy_ne _).trans ?_
      cases hsaved with
      | without hnone => simp [hnone] at hbackup
      | saved _ hblocked =>
        exact Disk.get?_put_self (Disk.ne_nil_of_get? (ne_of_beq_false hblocked)) _
    · intro r' hr'
      rw [← Except.ok.inj hr']
      exact ⟨fun _ => hoverwritten, fun _ => rfl⟩

end

/-- However the pipeline and the operations on files fail, processing a file is all or nothing. -/
theorem allOrNothing_processFile {n : Type → Type} [Monad n] [LawfulMonad n] [MonadAttach n]
    [LawfulMonadAttach n] [MonadCancel n] (p : Pipeline n) (options : WriteOptions)
    (path : String) {before after : Disk} {outcome : Except LintError PipelineResult}
    (h : CanReturn ((processFile p.onDisk options path).run.run before)
      (outcome, after)) :
    AllOrNothing options path before after outcome := by
  cases processed h with
  | unread => exact allOrNothing_self nofun
  | unlinted => exact allOrNothing_self nofun
  | @settled bytes _ _ _ _ _ hbytes haims hrun hsettle =>
    obtain ⟨source, last, diagnostics, hsource, rfl⟩ := Pipeline.exists_finish_of_run hrun
    refine allOrNothing_of_settles haims (read_of_source hbytes) rfl (fun hchanged hsame => ?_)
      (settles hsettle)
    have hfinal : decodeSource bytes = .ok last.content := by
      rw [← hsame, decodeSource, Text.decode_encode]
      rfl
    rw [hfinal, Except.ok.injEq] at hsource
    simp [Pipeline.finish, hsource] at hchanged

/-- A space is put behind the hash, and the copy still has none. -/
theorem processFile_hash :
    let p : Pipeline Id :=
      ⟨fun _ => .ok (.branch .root ⟨0, 0⟩ []), [.ofRule Rules.HashSpace.rule], ⟨true, 10⟩⟩
    let before : Disk := .ofNodes [(["a.md"], .file [35, 65])]
    let after : Disk := .ofNodes [(["a.md"], .file [35, 32, 65]), (["a.md.bak"], .file [35, 65])]
    Id.run ((processFile p.onDisk ⟨false, true, 100⟩ "a.md").run.run before) =
      (.ok ⟨"a.md", ['#', ' ', 'A'], true, [], 2, 1, [], [], true⟩, after) := by
  intro p before after
  have hsource : before.source ⟨false, true, 100⟩ "a.md" = .ok [35, 65] := by cbv
  have hlinted : Id.run (p.run "a.md" [35, 65]).run =
      .ok ⟨"a.md", ['#', ' ', 'A'], true, [], 2, 1, [], [], false⟩ := by cbv
  have haims : before.Aims "a.md" ["a.md"] ["a.md.bak"] [35, 65] := ⟨rfl, rfl, rfl, by decide⟩
  exact (processFile_of_linted haims hsource hlinted rfl).trans rfl

/-- This holds where the copy is made and the file is overwritten. -/
theorem allOrNothing_processFile_hash :
    let p : Pipeline Id :=
      ⟨fun _ => .ok (.branch .root ⟨0, 0⟩ []), [.ofRule Rules.HashSpace.rule], ⟨true, 10⟩⟩
    let options : WriteOptions := ⟨false, true, 100⟩
    let before : Disk := .ofNodes [(["a.md"], .file [35, 65])]
    let after : Disk := .ofNodes [(["a.md"], .file [35, 32, 65]), (["a.md.bak"], .file [35, 65])]
    let r : PipelineResult := ⟨"a.md", ['#', ' ', 'A'], true, [], 2, 1, [], [], true⟩
    Id.run ((processFile p.onDisk options "a.md").run.run before) = (.ok r, after) ∧
      AllOrNothing options "a.md" before after (.ok r) := by
  intro p options before after r
  exact ⟨processFile_hash, allOrNothing_processFile (n := Id) p options "a.md" processFile_hash⟩

end Tidymark
