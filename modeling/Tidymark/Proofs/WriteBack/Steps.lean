import Tidymark.Proofs.Disk.Put
import Tidymark.Proofs.Pipeline.Hoist

/-! # Steps of writing back

A file is read, its bytes go through the pipeline, and what comes of them is written back. Each step
answers something and writes something, and both depend on little: on where the path leads, on what
is there, and on which operations fail there. -/
namespace Tidymark

section
variable {n : Type → Type} [Monad n] {σ ε α β : Type}

/-- A computation from a state gives this answer and leads to this state, without other effects. -/
def Answers (x : ExceptT ε (StateT σ n) α) (s : σ) (answer : Except ε α) (s' : σ) : Prop :=
  x.run.run s = pure (answer, s')

theorem answers_pure (a : α) (s : σ) :
    Answers (pure a : ExceptT ε (StateT σ n) α) s (.ok a) s := rfl

theorem answers_throw (e : ε) (s : σ) :
    Answers (throw e : ExceptT ε (StateT σ n) α) s (.error e) s := rfl

variable [LawfulMonad n]

theorem Answers.run_bind {x : ExceptT ε (StateT σ n) α} {a : α} {s s' : σ}
    (h : Answers x s (.ok a) s') (f : α → ExceptT ε (StateT σ n) β) :
    (x >>= f).run.run s = (f a).run.run s' := by
  rw [ExceptT.run_bind, StateT.run_bind, h, pure_bind]

theorem Answers.bind {x : ExceptT ε (StateT σ n) α} {f : α → ExceptT ε (StateT σ n) β} {a : α}
    {s s' t : σ} {answer : Except ε β} (h : Answers x s (.ok a) s')
    (hf : Answers (f a) s' answer t) : Answers (x >>= f) s answer t :=
  (h.run_bind f).trans hf

theorem Answers.bind_error {x : ExceptT ε (StateT σ n) α} (f : α → ExceptT ε (StateT σ n) β)
    {e : ε} {s s' : σ} (h : Answers x s (.error e) s') : Answers (x >>= f) s (.error e) s' := by
  rw [Answers, ExceptT.run_bind, StateT.run_bind, h, pure_bind]
  rfl

theorem answers_fileStep {op : StateT σ n (Except FileError α)} {explain : FileError → LintError}
    {s s' : σ} {answer : Except FileError α} (h : op.run s = pure (answer, s')) :
    Answers (fileStep op explain) s (answer.mapError explain) s' := by
  rw [Answers, fileStep, ExceptT.run_bind]
  change (op.run s >>= fun p => pure (Except.ok p.1, p.2)) >>= _ = _
  rw [h, pure_bind, pure_bind]
  cases answer with
  | ok a => rfl
  | error e => rfl

end

/-- What reading a file that is not too large answers, which leaves the disk as it is. -/
def Disk.source (d : Disk) (options : WriteOptions) (path : String) :
    Except LintError (List UInt8) :=
  match d.lookUp .kind path with
  | .error e => .error (.file ("Failed to read metadata for " ++ path ++ ": " ++ e.reason))
  | .ok .directory => .error (.file ("Not a regular file: " ++ path))
  | .ok (.file held) =>
    if options.maxFileSize < held.length then
      .error (.file ("File size exceeds limit of " ++ toString options.maxFileSize ++ " bytes: " ++
        path))
    else (d.read path).mapError fun e => .file ("Failed to read " ++ path ++ ": " ++ e.reason)

section
variable {n : Type → Type} [Monad n] [LawfulMonad n]
variable {d : Disk} {options : WriteOptions} {path : String} {bytes : List UInt8}

theorem answers_readFile (d : Disk) (options : WriteOptions) (path : String) :
    Answers (readFile options path : ExceptT LintError (StateT Disk n) _) d
      (d.source options path) d := by
  have hkind : (MonadFiles.kind path : StateT Disk n _).run d =
      pure ((d.lookUp .kind path).map FileNode.kind, d) := by simp [MonadFiles.kind]
  have hread : (MonadFiles.read path : StateT Disk n _).run d = pure (d.read path, d) := by
    simp [MonadFiles.read]
  unfold Disk.source
  split
  · rename_i e hnode
    rw [hnode] at hkind
    exact (answers_fileStep hkind).bind_error _
  · rename_i hnode
    rw [hnode] at hkind
    exact (answers_fileStep hkind).bind (answers_throw _ _)
  · rename_i held hnode
    rw [hnode] at hkind
    refine (answers_fileStep hkind).bind ?_
    simp only [FileNode.kind]
    split
    · exact (answers_throw _ _).bind_error _
    · exact answers_fileStep hread

theorem read_of_source (h : d.source options path = .ok bytes) : d.read path = .ok bytes := by
  unfold Disk.source at h
  split at h
  · cases h
  · cases h
  · split at h
    · cases h
    · exact mapError_eq_ok_iff.mp h

end

/-- What a disk lets writing back do: which operations fail, and whether there is a directory where
the copy should be. -/
structure Conditions where
  fault? : FileAction → List String → Option Fault
  blocked : Bool

def Disk.conditions (d : Disk) (copy : List String) : Conditions :=
  ⟨d.fault?, d.get? copy == some .directory⟩

section
variable (c : Conditions) (options : WriteOptions) (path : String) (bytes : List UInt8)
variable (target copy : List String) (r : PipelineResult)

/-- What making a copy answers and writes. -/
def Conditions.save : Except LintError Unit × Disk.Writes :=
  if options.backup then
    if c.blocked then (.error (.backup (backupPath path) FileError.isDirectory.reason), [])
    else match c.fault? .write copy with
      | none => (.ok (), [(copy, bytes)])
      | some .refused => (.error (.backup (backupPath path) Disk.fault.reason), [])
      | some (.torn kept) =>
        (.error (.backup (backupPath path) Disk.fault.reason), [(copy, bytes.take kept)])
  else (.ok (), [])

/-- What overwriting the target answers and writes, behind what is saved. -/
def Conditions.overwrite (saved : Disk.Writes) : Except LintError PipelineResult × Disk.Writes :=
  if (c.fault? .replace target).isSome then
    (.error (.file ("Failed to write " ++ path ++ ": " ++ Disk.fault.reason)), saved)
  else (.ok { r with written := true }, saved ++ [(target, Text.encode r.finalContent)])

def Conditions.settle : Except LintError PipelineResult × Disk.Writes :=
  if !r.changed || options.dryRun then (.ok r, [])
  else match c.save options path bytes copy with
    | (.error e, saved) => (.error e, saved)
    | (.ok (), saved) => c.overwrite path target r saved

end

section
variable {n : Type → Type} [Monad n] [LawfulMonad n]
variable {d : Disk} {options : WriteOptions} {path : String} {bytes : List UInt8}
variable {target copy : List String}

theorem answers_overwrite (saved : Disk.Writes)
    (h : (d.putAll saved).Aims path target copy bytes) (r : PipelineResult) :
    Answers (do
      fileStep (MonadFiles.replace path (Text.encode r.finalContent)) fun e =>
        .file ("Failed to write " ++ path ++ ": " ++ e.reason)
      return { r with written := true } : ExceptT LintError (StateT Disk n) _) (d.putAll saved)
      ((d.conditions copy).overwrite path target r saved).1
      (d.putAll ((d.conditions copy).overwrite path target r saved).2) := by
  have hrun : (MonadFiles.replace path (Text.encode r.finalContent) : StateT Disk n _).run
      (d.putAll saved) = pure ((d.putAll saved).replace path (Text.encode r.finalContent)) := by
    simp [MonadFiles.replace]
  rw [h.replace_eq, Disk.fault?_putAll] at hrun
  unfold Conditions.overwrite
  change Answers _ _ (if (d.fault? .replace target).isSome then _ else _ : _ × _).1
    (d.putAll (if (d.fault? .replace target).isSome then _ else _ : _ × _).2)
  split
  · rename_i hfault
    rw [if_pos hfault] at hrun
    exact (answers_fileStep hrun).bind_error _
  · rename_i hfault
    rw [if_neg hfault] at hrun
    rw [Disk.putAll_append]
    exact (answers_fileStep hrun).bind (answers_pure _ _)

theorem answers_writeBack (h : d.Aims path target copy bytes) (options : WriteOptions)
    (r : PipelineResult) :
    Answers (writeBack options path bytes r : ExceptT LintError (StateT Disk n) _) d
      ((d.conditions copy).settle options path bytes target copy r).1
      (d.putAll ((d.conditions copy).settle options path bytes target copy r).2) := by
  have hwrite : (MonadFiles.write (backupPath path) bytes : StateT Disk n _).run d =
      pure (d.write (backupPath path) bytes) := by simp [MonadFiles.write]
  unfold writeBack Conditions.settle Conditions.save
  split
  · exact answers_pure _ _
  · by_cases hbackup : options.backup = true
    · simp only [if_pos hbackup]
      by_cases hcopy : d.get? copy = some .directory
      · rw [h.write_eq_of_directory hcopy] at hwrite
        simp only [Disk.conditions, hcopy, beq_self_eq_true, if_true]
        exact (answers_fileStep hwrite).bind_error _
      · rw [h.write_eq hcopy] at hwrite
        simp only [Disk.conditions, beq_eq_false_iff_ne.mpr hcopy, Bool.false_eq_true, if_false]
        cases hfault : d.fault? .write copy with
        | none =>
          rw [hfault] at hwrite
          exact (answers_fileStep hwrite).bind
            (answers_overwrite [(copy, bytes)] (h.putCopy hcopy bytes) r)
        | some fault =>
          rw [hfault] at hwrite
          cases fault with
          | refused => exact (answers_fileStep hwrite).bind_error _
          | torn kept => exact (answers_fileStep hwrite).bind_error _
    · simp only [if_neg hbackup]
      exact answers_overwrite [] h r

end

section
variable {n : Type → Type} [Monad n] [LawfulMonad n] [MonadCancel n]

/-- The pipeline among operations on files, which it does not use. -/
def Pipeline.onDisk (p : Pipeline n) : Pipeline (StateT Disk n) := p.hoist

variable (p : Pipeline n) (options : WriteOptions) (path : String) (d : Disk)

theorem Pipeline.run_onDisk (bytes : List UInt8) :
    (p.onDisk.run path bytes).run.run d = (·, d) <$> (p.run path bytes).run := by
  rw [onDisk, run_hoist p path rfl]
  exact Tidymark.run_hoist _ d

theorem run_processFile :
    (processFile p.onDisk options path).run.run d =
      match d.source options path with
      | .error e => pure (.error e, d)
      | .ok bytes => (p.run path bytes).run >>= fun answer =>
        match answer with
        | .error e => pure (.error e, d)
        | .ok r =>
          (writeBack options path bytes r : ExceptT LintError (StateT Disk n) _).run.run d := by
  have hread := answers_readFile (n := n) d options path
  cases hsource : d.source options path with
  | error e =>
    rw [hsource] at hread
    exact hread.bind_error _
  | ok bytes =>
    rw [hsource] at hread
    rw [processFile, hread.run_bind, ExceptT.run_bind, StateT.run_bind, Pipeline.run_onDisk,
      map_eq_pure_bind, bind_assoc]
    refine bind_congr fun answer => ?_
    rw [pure_bind]
    cases answer with
    | error e => rfl
    | ok r => rfl

end

section
variable {p : Pipeline Id} {options : WriteOptions} {path : String} {d : Disk}
variable {bytes : List UInt8} {e : LintError} {r : PipelineResult}

theorem processFile_of_unread (h : d.source options path = .error e) :
    Id.run ((processFile p.onDisk options path).run.run d) = (.error e, d) := by
  rw [run_processFile, h]
  rfl

theorem processFile_of_unlinted (hbytes : d.source options path = .ok bytes)
    (h : Id.run (p.run path bytes).run = .error e) :
    Id.run ((processFile p.onDisk options path).run.run d) = (.error e, d) := by
  rw [run_processFile, hbytes]
  dsimp only
  rw [Id.run_bind, h]
  rfl

theorem processFile_of_linted {target copy : List String}
    {outcome : Except LintError PipelineResult} {writes : Disk.Writes}
    (haims : d.Aims path target copy bytes) (hbytes : d.source options path = .ok bytes)
    (h : Id.run (p.run path bytes).run = .ok r)
    (hsettle : (d.conditions copy).settle options path bytes target copy r = (outcome, writes)) :
    Id.run ((processFile p.onDisk options path).run.run d) = (outcome, d.putAll writes) := by
  have hback := answers_writeBack (n := Id) haims options r
  rw [hsettle] at hback
  rw [run_processFile, hbytes]
  dsimp only
  rw [Id.run_bind, h]
  exact hback

end
end Tidymark
