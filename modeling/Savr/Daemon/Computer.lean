import Savr.Core.Collect
import Savr.Core.Confine
import Savr.Core.PlainFormat
import Savr.Daemon.Pull

/-!
# A device with its disk

`run_backup` of `savr-daemon/src/backup.rs` once more, now as a program over the files on
disk and the state database, either of which may fail at any point.

## Main results

* `runBackup_confined` — a backup touches files in the blob cache only.
* `runBackup_backedUp` — if it returns, the database is as the actions of the pipeline leave it.
* `BackedUp.snapshot` — and the stored snapshot lists what was collected.

## Design notes

Nothing is assumed about the server: whether an upload is answered, and how, is part of the
environment of a call.
-/

namespace Savr

open Hoare

/-! ## File names -/

/-- `Blake3Hash::to_hex`. -/
def Blake3Hash.toHex (h : Blake3Hash) : String :=
  String.ofList (h.digest.flatMap fun b => (hexPadded 2 b).toList)

/-- The file an archive is kept in. -/
def archiveName (hash : Blake3Hash) : String := hash.toHex ++ ".savr"

/-- The file an archive is packed into. -/
def packingName (id : Uuid) : String := "packing-" ++ Uuid.text id ++ ".savr"

section Names

variable {style : PathStyle} {name : String}

/-- A character that is neither a separator nor a colon. -/
def plainChar (c : Char) : Bool := c.isAlphanum || c = '-' || c = '.'

/-- A text of plain characters that are not all dots is a file name. -/
theorem fileName_of_plain (plain : ∀ c ∈ name.toList, plainChar c)
    (named : ∃ c ∈ name.toList, c ≠ '.') : FileName style name := by
  obtain ⟨c, hc, hdot⟩ := named
  have hne : ∀ text : String, (∀ d ∈ text.toList, d = '.') → name ≠ text := by
    rintro text htext rfl
    exact hdot (htext c hc)
  refine ⟨hne _ (by simp), hne _ (by simp), hne _ (by simp), ?_, ?_⟩
  · intro d hd
    have hplain := plain d hd
    cases hsep : style.isSep d with
    | false => rfl
    | true =>
        have hslash : d = '/' ∨ d = '\\' := by
          rw [PathStyle.isSep, Bool.or_eq_true, decide_eq_true_eq, decide_eq_true_eq] at hsep
          cases style with
          | unix => exact .inl (hsep.elim id id)
          | windows => exact hsep
        rcases hslash with rfl | rfl
        · exact absurd hplain (by decide)
        · exact absurd hplain (by decide)
  · intro _ hmem
    exact absurd (plain ':' hmem) (by decide)

theorem digitChar_plainChar {d : ℕ} (hd : d < 16) : plainChar d.digitChar := by
  interval_cases d <;> decide

theorem plainChar_of_mem_uuid {id : Uuid} {c : Char} (hc : c ∈ (Uuid.text id).toList) :
    plainChar c :=
  Uuid.forall_mem_text (P := fun c => plainChar c) (fun _ => digitChar_plainChar) (by decide) id c
    hc

/-- The archive of a hash is a file in the cache. -/
theorem fileName_archiveName (style : PathStyle) (hash : Blake3Hash) :
    FileName style (archiveName hash) := by
  have hlist : (archiveName hash).toList =
      (hash.digest.flatMap fun b => (hexPadded 2 b).toList) ++ ".savr".toList := by
    simp [archiveName, Blake3Hash.toHex]
  refine fileName_of_plain ?_ ⟨'s', by rw [hlist]; simp, by decide⟩
  intro c hc
  rw [hlist] at hc
  rcases List.mem_append.mp hc with hc | hc
  · obtain ⟨b, -, hcb⟩ := List.mem_flatMap.mp hc
    exact forall_mem_hexPadded (P := fun c => plainChar c) (fun _ => digitChar_plainChar) 2 b c hcb
  · have hall : ".savr".toList.all plainChar = true := by decide
    exact List.all_eq_true.mp hall c hc

/-- So is the archive that is being packed. -/
theorem fileName_packingName (style : PathStyle) (id : Uuid) :
    FileName style (packingName id) := by
  have hlist : (packingName id).toList =
      "packing-".toList ++ (Uuid.text id).toList ++ ".savr".toList := by
    simp [packingName]
  refine fileName_of_plain ?_ ⟨'s', by rw [hlist]; simp, by decide⟩
  intro c hc
  rw [hlist] at hc
  rcases List.mem_append.mp hc with hc | hc
  · rcases List.mem_append.mp hc with hc | hc
    · have hall : "packing-".toList.all plainChar = true := by decide
      exact List.all_eq_true.mp hall c hc
    · exact plainChar_of_mem_uuid hc
  · have hall : ".savr".toList.all plainChar = true := by decide
    exact List.all_eq_true.mp hall c hc

theorem fileName_uuid (style : PathStyle) (id : Uuid) : FileName style (Uuid.text id) := by
  refine fileName_of_plain (fun c => plainChar_of_mem_uuid) ⟨'-', ?_, by decide⟩
  simp [Uuid.text]

/-- An archive in the scratch directory never has the name of a version's directory. -/
theorem archiveName_ne_uuid (hash : Blake3Hash) (id : Uuid) : archiveName hash ≠ Uuid.text id := by
  intro heq
  have hdot : '.' ∈ (archiveName hash).toList := by
    simp [archiveName]
  rw [heq] at hdot
  have hplain := Uuid.forall_mem_text (P := fun c => c ≠ '.') (fun d hd => by
    interval_cases d <;> decide) (by decide) id '.' hdot
  exact hplain rfl

/-- A name the daemon makes up leads to one file in a directory. -/
theorem FileName.push_eq (h : FileName style name) (dir : PathBuf) :
    push style dir name = dir ++ [.normal name] := by
  rw [push_of_normal, components_name h]
  rw [components_name h]
  exact normal_of_names [name]

theorem FileName.below_push (h : FileName style name) (dir : PathBuf) :
    Below dir (push style dir name) := by
  rw [h.push_eq]
  exact below_normal dir name

end Names

/-! ## Programs of the daemon -/

/-- A device with its disk. -/
structure Computer where
  fs : Fs
  device : Device

/-- A program over the disk and the state database. -/
abbrev DaemonIo := Prog Computer Failure

/-- A program over the disk alone. -/
def disk {α : Type} (c : Io α) : DaemonIo α :=
  Prog.zoom Computer.fs (fun fs m => { m with fs }) c

/-- A query of the state database. -/
def load : DaemonIo Device := do
  let fate ← disk nextFate
  let m ← Prog.get
  if fate = .granted then pure m.device else Prog.throw .refused

/-- A statement that changes the state database. -/
def store (w : Write) : DaemonIo PUnit := do
  let fate ← disk nextFate
  if fate = .granted then Prog.modify fun m => { m with device := w.apply m.device }
  else Prog.throw .refused

/-! ## `run_backup` -/

/-- A backup job with all its fields. -/
structure SaveJob extends BackupJob where
  anchor : PathBuf
  excludes : List String
  deriving DecidableEq, Repr

/-- What the environment decides about one call of `run_backup` on a disk. What
`Snapshot::build` collects is not among it: that is read off the disk. -/
structure DiskEnv where
  /-- The ids and times that are drawn, and `full_every`. -/
  draws : BackupEnv
  mtime : PathBuf → ℤ
  /-- The id in the name of the file that is packed into. -/
  packingId : Uuid
  /-- The answer to the upload; `none` if the daemon is not paired or the upload fails. -/
  reply : Option Advance

section Pipeline

variable [Blake3] (fmt : SavrFormat) (g : GlobCrate) (pf : Platform) (cache : PathBuf)

/-- `Snapshot::build`: any of its reads may fail. -/
def snapshotBuild (job : SaveJob) (mtime : PathBuf → ℤ) : Io SaveSet := do
  let fate ← nextFate
  let s ← Prog.get
  if fate = .granted then
    Prog.ofOption .glob (collect g pf job.patterns job.excludes job.anchor mtime s.tree)
  else Prog.throw .refused

/-- The archive with the bytes that were read, and the digest of the packed file. -/
def Packed.repack (p : Packed) (payload : List (String × Bytes)) : Packed :=
  let archive := { p.archive with payload }
  let bytes := archive.bytes fmt
  { p with
    archive
    create := { p.create with blobHash := Blake3.ofBytes bytes, bytes := bytes.length } }

/-- `pack_to_file`: the archive in a temporary file, with the digest of what was written. -/
def packToFile (anchor : PathBuf) (p : Packed) (outPath : PathBuf) : Io Packed := do
  createFile pf outPath []
  let payload ← readPayload fmt pf (p.archive.payload.map fun f => (f.1, push pf.style anchor f.1))
  createFile pf outPath ((p.repack fmt payload).archive.bytes fmt)
  let _ ← readFile pf outPath
  pure (p.repack fmt payload)

/-- One action of the bookkeeping after an upload. -/
def perform : Action → DaemonIo PUnit
  | .write (.removeArchive hash) => do
      Prog.attempt (disk (removeFile pf (push pf.style cache (archiveName hash))))
      Prog.modify fun m => { m with device := (Write.removeArchive hash).apply m.device }
  | .write w => store w
  | .request _ => pure ⟨⟩

/-- The bookkeeping, by the answer to the upload. -/
def bookkeeping (d : Device) (gameId : GameId) (p : Packed) (env : BackupEnv) :
    Option Advance → List Action
  | some advance => settleBackup d gameId p env advance
  | none => queueBackup gameId p env

/-- What the answer to an upload means for the backup. -/
def outcomeOf : Option Advance → BackupOutcome
  | some (.fastForward version) => .uploaded version
  | some (.conflict head incoming) => .conflict head incoming
  | none => .queued

/-- Pack a backup into the blob cache, upload it and record it. The archive is written under
another name and renamed, so what stands under a hash is complete. -/
def packAndUpload (job : SaveJob) (env : DiskEnv) (d : Device) (p : Packed) :
    DaemonIo BackupOutcome := do
  disk (createDirAll pf cache)
  let tmpPath := push pf.style cache (packingName env.packingId)
  let p ← disk (packToFile fmt pf job.anchor p tmpPath)
  disk (rename pf tmpPath (push pf.style cache (archiveName p.create.blobHash)))
  Prog.modify fun m =>
    { m with device := (Write.cacheArchive p.create.blobHash p.archive).apply m.device }
  (bookkeeping d job.gameId p env.draws env.reply).forM (perform pf cache)
  pure (outcomeOf env.reply)

/-- Run one backup for a game: `packBackup` over what the disk holds. An unreadable save ends
it before anything is written. -/
def Computer.runBackup (job : SaveJob) (env : DiskEnv) : DaemonIo BackupOutcome :=
  if job.patterns.isEmpty && job.registryKeys.isEmpty then pure .noChange
  else do
    let saves ← disk (snapshotBuild g pf job env.mtime)
    let d ← load
    match packBackup d job.toBackupJob { env.draws with saves } with
    | none => pure .noChange
    | some p => packAndUpload fmt pf cache job env d p

/-! ## What a backup touches -/

/-- On the disk only such files are touched. -/
def Computer.Confined (pf : Platform) (Allowed : PathBuf → Prop) (m₀ m : Computer) : Prop :=
  m₀.fs.Confined pf Allowed m.fs

section Touched

variable {fmt g pf cache} {Allowed : PathBuf → Prop} {job : SaveJob} {env : DiskEnv}

instance : Std.Refl (Computer.Confined pf Allowed) := ⟨fun m => .refl m.fs⟩

instance : IsTrans Computer (Computer.Confined pf Allowed) :=
  ⟨fun _ _ _ h h' => Fs.Confined.trans h h'⟩

omit [Blake3] in
theorem keeps_disk {α : Type} {c : Io α} (h : Keeps (Fs.Confined pf Allowed) c) :
    Keeps (Computer.Confined pf Allowed) (disk c) :=
  keeps_zoom h fun _ _ hs => hs

/-- On the disk only such files are touched, and the database is as it was. -/
structure Computer.Quiet (pf : Platform) (Allowed : PathBuf → Prop) (m₀ m : Computer) : Prop where
  confined : m₀.Confined pf Allowed m
  device : m.device = m₀.device

instance : Std.Refl (Computer.Quiet pf Allowed) := ⟨fun m => ⟨.refl m.fs, rfl⟩⟩

instance : IsTrans Computer (Computer.Quiet pf Allowed) :=
  ⟨fun _ _ _ h h' => ⟨h.confined.trans h'.confined, h'.device.trans h.device⟩⟩

omit [Blake3] in
theorem keepsQuiet_disk {α : Type} {c : Io α} (h : Keeps (Fs.Confined pf Allowed) c) :
    Keeps (Computer.Quiet pf Allowed) (disk c) :=
  keeps_zoom h fun _ _ hs => ⟨hs, rfl⟩

omit [Blake3] in
theorem keepsQuiet_load : Keeps (Computer.Quiet pf Allowed) load := by
  refine keeps_bind (keepsQuiet_disk keeps_nextFate) fun fate => keeps_bind keeps_get fun m => ?_
  split_ifs
  · exact keeps_pure _
  · exact keeps_throw _

omit [Blake3] in
theorem keeps_modifyDevice (f : Device → Device) : Keeps (Computer.Confined pf Allowed)
    (Prog.modify fun m => { m with device := f m.device } : DaemonIo PUnit) :=
  fun m => Fs.Confined.refl m.fs

omit [Blake3] in
theorem keeps_load : Keeps (Computer.Confined pf Allowed) load :=
  keepsQuiet_load.mono fun _ _ hm => hm.confined

omit [Blake3] in
theorem keeps_store (w : Write) : Keeps (Computer.Confined pf Allowed) (store w) := by
  refine keeps_bind (keeps_disk keeps_nextFate) fun fate => ?_
  split_ifs
  · exact keeps_modifyDevice fun d => w.apply d
  · exact keeps_throw _

omit [Blake3] in
/-- A write of the bookkeeping touches files of the cache alone. -/
theorem keeps_perform (allowed : ∀ p, Below cache p → Allowed p) (a : Action) :
    Keeps (Computer.Confined pf Allowed) (perform pf cache a) := by
  fun_cases perform pf cache a with
  | case1 hash =>
      refine keeps_bind (keeps_attempt (keeps_disk (keeps_removeFile ?_))) fun _ =>
        keeps_modifyDevice fun d => (Write.removeArchive hash).apply d
      exact allowed _ ((fileName_archiveName pf.style hash).below_push cache)
  | case2 w hother => exact keeps_store w
  | case3 r => exact keeps_pure _

omit [Blake3] in
theorem keeps_snapshotBuild {mtime : PathBuf → ℤ} :
    Keeps (Fs.Confined pf Allowed) (snapshotBuild g pf job mtime) := by
  refine keeps_bind keeps_nextFate fun fate => keeps_bind keeps_get fun s => ?_
  split_ifs
  · exact keeps_ofOption _ _
  · exact keeps_throw _

omit [Blake3] in
/-- Reading the payload touches nothing. -/
theorem keeps_readPayload (payload : List (String × PathBuf)) :
    Keeps (Fs.Confined pf Allowed) (readPayload fmt pf payload) := by
  induction payload with
  | nil => exact keeps_pure _
  | cons f payload ih =>
      refine keeps_bind keeps_readFile fun _ => ?_
      split_ifs
      · exact keeps_bind ih fun _ => keeps_pure _
      · exact keeps_throw _

theorem keeps_packToFile {anchor outPath : PathBuf} (p : Packed) (allowed : Allowed outPath) :
    Keeps (Fs.Confined pf Allowed) (packToFile fmt pf anchor p outPath) :=
  keeps_bind (keeps_createFile allowed) fun _ => keeps_bind (keeps_readPayload _) fun _ =>
    keeps_bind (keeps_createFile allowed) fun _ => keeps_bind keeps_readFile fun _ =>
      keeps_pure _

/-- **A backup touches files in the blob cache only**, whether it succeeds or fails. -/
theorem runBackup_confined (allowed : ∀ p, Below cache p → Allowed p) :
    Keeps (Computer.Confined pf Allowed) (Computer.runBackup fmt g pf cache job env) := by
  have hpacking := allowed _ ((fileName_packingName pf.style env.packingId).below_push cache)
  rw [Computer.runBackup]
  split_ifs
  · exact keeps_pure _
  · refine keeps_bind (keeps_disk keeps_snapshotBuild) fun saves =>
      keeps_bind keeps_load fun d => ?_
    cases packBackup d job.toBackupJob { env.draws with saves } with
    | none => exact keeps_pure _
    | some p =>
        refine keeps_bind (keeps_disk keeps_createDirAll) fun _ =>
          keeps_bind (keeps_disk (keeps_packToFile p hpacking)) fun p => ?_
        have hfinal :=
          allowed _ ((fileName_archiveName pf.style p.create.blobHash).below_push cache)
        exact keeps_bind (keeps_disk (keeps_rename hpacking hfinal)) fun _ =>
          keeps_bind (keeps_modifyDevice fun d =>
              (Write.cacheArchive p.create.blobHash p.archive).apply d) fun _ =>
            keeps_bind (keeps_forM fun a _ => keeps_perform allowed a) fun _ => keeps_pure _

end Touched

/-! ## What a backup records -/

/-- What an action does to the device. -/
def Action.onDevice (d : Device) : Action → Device
  | .write w => w.apply d
  | .request _ => d

/-- The database and the outcome after a backup of these saves. The archive is packed anew
from the disk, so its payload may be another one than what the snapshot saw. -/
inductive BackedUp (job : SaveJob) (env : DiskEnv) (saves : SaveSet) (d : Device) :
    BackupOutcome → Device → Prop
  | noChange (h : packBackup d job.toBackupJob { env.draws with saves } = none) :
      BackedUp job env saves d .noChange d
  | recorded (p : Packed) (payload : List (String × Bytes))
      (h : packBackup d job.toBackupJob { env.draws with saves } = some p) :
      BackedUp job env saves d (outcomeOf env.reply)
        ((Action.write (.cacheArchive (p.repack fmt payload).create.blobHash
            (p.repack fmt payload).archive) ::
          bookkeeping d job.gameId (p.repack fmt payload) env.draws env.reply).foldl
            Action.onDevice d)

section Recorded

variable {fmt g pf cache} {job : SaveJob} {env : DiskEnv} {saves : SaveSet} {d : Device}
  {m₀ : Computer}

omit [Blake3] in
theorem nextFate_run (s : Fs) : ∃ fate fates, nextFate s = (.ok fate, { s with fates }) := by
  rcases hfates : s.fates with _ | ⟨fate, fates⟩
  · have hrun : nextFate s = (.ok .granted, s) := by rw [nextFate, hfates]
    exact ⟨.granted, s.fates, hrun⟩
  · exact ⟨fate, fates, by rw [nextFate, hfates]⟩

/-- The database is as it was. -/
abbrev SameDevice (m₀ m : Computer) : Prop := m.device = m₀.device

omit [Blake3] in
theorem keepsDevice_disk {α : Type} (c : Io α) : Keeps SameDevice (disk c) := fun _ => rfl

omit [Blake3] in
theorem triple_device {α : Type} {c : DaemonIo α} (h : Keeps SameDevice c) :
    Triple (fun m => m.device = d) c (fun _ m => m.device = d) fun _ => True := by
  refine triple_of_state fun m hm => h.triple.conseq (fun _ hs => hs) ?_ fun _ _ => trivial
  exact fun _ m' hm' => hm'.trans hm

omit [Blake3] in
/-- Loading gives the database, and leaves it as it is. -/
theorem load_device :
    Triple (fun m => m.device = d) load (fun d' m => d' = d ∧ m.device = d) fun _ => True := by
  refine triple_bind (triple_device (keepsDevice_disk _)) fun fate => triple_get_bind fun m hm => ?_
  split_ifs
  · refine triple_pure ?_
    rintro m' rfl
    exact ⟨hm, hm⟩
  · exact triple_throw fun _ _ => trivial

omit [Blake3] in
theorem store_device (w : Write) :
    Triple (fun m => m.device = d) (store w) (fun _ m => m.device = w.apply d)
      fun _ => True := by
  refine triple_bind (triple_device (keepsDevice_disk _)) fun fate => ?_
  split_ifs
  · exact triple_modify fun m hm => congrArg (Write.apply · w) hm
  · exact triple_throw fun _ _ => trivial

omit [Blake3] in
/-- An action changes the database as its write says. -/
theorem perform_device (a : Action) :
    Triple (fun m => m.device = d) (perform pf cache a) (fun _ m => m.device = a.onDevice d)
      fun _ => True := by
  fun_cases perform pf cache a with
  | case1 hash =>
      refine triple_bind (triple_device (keeps_attempt (keepsDevice_disk _))) fun _ => ?_
      exact triple_modify fun m hm => congrArg (Write.apply · (.removeArchive hash)) hm
  | case2 w hother => exact store_device w
  | case3 r => exact triple_pure fun _ hm => hm

omit [Blake3] in
theorem forM_perform_device (actions : List Action) :
    Triple (fun m => m.device = d) (actions.forM (perform pf cache))
      (fun _ m => m.device = actions.foldl Action.onDevice d) fun _ => True := by
  refine triple_forM (fun done (m : Computer) => m.device = done.foldl Action.onDevice d) ?_
  intro done a rest _
  rw [List.foldl_append]
  exact perform_device a

omit [Blake3] in
/-- What is collected is what the patterns find on the disk as it is. -/
theorem snapshotBuild_collects {mtime : PathBuf → ℤ} {s₀ : Fs} :
    Triple (fun s => s = s₀) (snapshotBuild g pf job mtime)
      (fun saves _ => collect g pf job.patterns job.excludes job.anchor mtime s₀.tree
        = some saves) fun _ => True := by
  refine triple_bind (R := fun _ s => s.tree = s₀.tree) ?_ fun fate => ?_
  · rintro s rfl
    obtain ⟨fate, fates, hrun⟩ := nextFate_run s
    rw [hrun]
    refine ⟨?_, fun _ _ _ => trivial⟩
    intro _ s' heq
    cases heq
    rfl
  · refine triple_get_bind fun s hs => ?_
    split_ifs
    · refine triple_ofOption (fun saves hsaves _ _ => ?_) fun _ _ _ => trivial
      rw [← hs]
      exact hsaves
    · exact triple_throw fun _ _ => trivial

theorem packToFile_repacks {anchor outPath : PathBuf} (p : Packed) :
    Triple (fun _ => True) (packToFile fmt pf anchor p outPath)
      (fun p' _ => ∃ payload, p' = p.repack fmt payload) fun _ => True := by
  exact triple_bind triple_any fun _ => triple_bind triple_any fun payload =>
    triple_bind triple_any fun _ => triple_bind triple_any fun _ =>
      triple_pure fun _ _ => ⟨payload, rfl⟩

/-- What the state database holds after an upload, whatever it answers. -/
theorem packAndUpload_records (p : Packed) :
    Triple (fun m => m.device = d) (packAndUpload fmt pf cache job env d p)
      (fun r m => ∃ payload, r = outcomeOf env.reply ∧ m.device =
        (Action.write (.cacheArchive (p.repack fmt payload).create.blobHash
            (p.repack fmt payload).archive) ::
          bookkeeping d job.gameId (p.repack fmt payload) env.draws env.reply).foldl
            Action.onDevice d) fun _ => True := by
  have hpacked : Triple (fun m => m.device = d) (disk (packToFile fmt pf job.anchor p
      (push pf.style cache (packingName env.packingId))))
      (fun p' m => (∃ payload, p' = p.repack fmt payload) ∧ m.device = d) fun _ => True := by
    refine triple_zoom fun m hm => ?_
    exact (packToFile_repacks p).conseq (fun _ _ => trivial) (fun _ _ hs => ⟨hs, hm⟩)
      fun _ _ => trivial
  refine triple_bind (triple_device (keepsDevice_disk _)) fun _ => triple_bind hpacked fun p' => ?_
  rintro m ⟨⟨payload, rfl⟩, hdevice⟩
  refine triple_bind (triple_device (keepsDevice_disk _)) (fun _ => ?_) m hdevice
  refine triple_bind (R := fun _ m => m.device = (Write.cacheArchive
    (p.repack fmt payload).create.blobHash (p.repack fmt payload).archive).apply d) ?_ fun _ => ?_
  · exact triple_modify fun m hm => congrArg (Write.apply · (.cacheArchive _ _)) hm
  · exact triple_bind (forM_perform_device _) fun _ =>
      triple_pure fun m hm => ⟨payload, rfl, hm⟩

/-- **What a backup records**, if it returns: exactly what the actions of the pipeline do. -/
theorem runBackup_backedUp (targets : ¬ (job.patterns = [] ∧ job.registryKeys = [])) :
    Triple (fun m => m = m₀) (Computer.runBackup fmt g pf cache job env)
      (fun r m => ∃ saves,
        collect g pf job.patterns job.excludes job.anchor env.mtime m₀.fs.tree = some saves ∧
        BackedUp fmt job env saves m₀.device r m.device) fun _ => True := by
  have hnone : ¬ (job.patterns.isEmpty && job.registryKeys.isEmpty) = true := by
    simpa [List.isEmpty_iff] using targets
  rw [Computer.runBackup, if_neg hnone]
  have hcollect : Triple (fun m => m = m₀) (disk (snapshotBuild g pf job env.mtime))
      (fun saves m =>
        collect g pf job.patterns job.excludes job.anchor env.mtime m₀.fs.tree = some saves ∧
        m.device = m₀.device) fun _ => True := by
    refine triple_zoom ?_
    rintro m rfl
    exact snapshotBuild_collects.conseq (fun _ hs => hs) (fun _ _ hs => ⟨hs, rfl⟩)
      fun _ _ => trivial
  refine triple_bind hcollect fun saves => ?_
  rintro m ⟨hsaves, hdevice⟩
  refine triple_bind load_device (fun d => ?_) m hdevice
  rintro m ⟨rfl, hdevice⟩
  cases hpack : packBackup m₀.device job.toBackupJob { env.draws with saves } with
  | none =>
      refine triple_pure (P := fun m => m.device = m₀.device) ?_ m hdevice
      intro m hm
      rw [hm]
      exact ⟨saves, hsaves, .noChange hpack⟩
  | some p =>
      refine (packAndUpload_records p).conseq (fun _ hm => hm) ?_ (fun _ _ => trivial) m hdevice
      rintro r m ⟨payload, rfl, hm⟩
      rw [hm]
      exact ⟨saves, hsaves, .recorded p payload hpack⟩

/-- **After a backup the stored snapshot lists what was collected**, whatever its outcome. -/
theorem BackedUp.snapshot {r : BackupOutcome} {d' : Device} (h : BackedUp fmt job env saves d r d')
    (targets : ¬ (job.patterns = [] ∧ job.registryKeys = [])) :
    ∃ snap, d'.state.snapshots job.gameId = some snap ∧
      fileMap snap.files = fileMap (saves.files.map SaveFile.entry) := by
  cases h with
  | noChange hpack => exact ((packBackup_eq_none_iff.mp hpack).resolve_left targets).2
  | recorded p payload hpack =>
      have hfiles : p.create.files = saves.files.map SaveFile.entry := (packBackup_eq_some hpack).1
      cases hreply : env.reply with
      | none =>
          refine ⟨⟨p.create.files, p.takenAt, p.create.parent⟩, ?_, congrArg fileMap hfiles⟩
          simp [bookkeeping, queueBackup, Action.onDevice, Write.apply, LocalState.putSnapshot,
            LocalState.enqueueOutbox, Packed.repack]
      | some advance =>
          cases advance with
          | fastForward version | conflict head version =>
              refine ⟨⟨p.create.files, p.takenAt, some version.id⟩, ?_, congrArg fileMap hfiles⟩
              simp [bookkeeping, settleBackup, confirmBackup, recordBranch, Action.onDevice,
                Write.apply, LocalState.putSnapshot, Packed.repack]

omit [Blake3] in
/-- An upload is never an idle backup. -/
theorem outcomeOf_ne_noChange (reply : Option Advance) : outcomeOf reply ≠ .noChange := by
  cases reply with
  | none => exact BackupOutcome.noConfusion
  | some advance =>
      cases advance with
      | fastForward version | conflict head version => exact BackupOutcome.noConfusion

theorem BackedUp.packs {r : BackupOutcome} {d' : Device} (h : BackedUp fmt job env saves d r d')
    (hr : r = .noChange) : packBackup d job.toBackupJob { env.draws with saves } = none := by
  cases h with
  | noChange hpack => exact hpack
  | recorded p payload hpack => exact absurd hr (outcomeOf_ne_noChange env.reply)

/-- **A backup that finds nothing to do** has collected what the stored snapshot lists. -/
theorem of_runBackup_noChange {m m' : Computer}
    (targets : ¬ (job.patterns = [] ∧ job.registryKeys = []))
    (hrun : Computer.runBackup fmt g pf cache job env m = (.ok .noChange, m')) :
    ∃ saves snap,
      collect g pf job.patterns job.excludes job.anchor env.mtime m.fs.tree = some saves ∧
      m.device.state.snapshots job.gameId = some snap ∧
      fileMap snap.files = fileMap (saves.files.map SaveFile.entry) := by
  obtain ⟨saves, hsaves, hrecorded⟩ := (runBackup_backedUp targets).ok rfl hrun
  obtain ⟨snap, hsnap, hsame⟩ :=
    ((packBackup_eq_none_iff.mp (hrecorded.packs rfl)).resolve_left targets).2
  exact ⟨saves, snap, hsaves, hsnap, hsame⟩

end Recorded

/-! ## Backing up twice -/

/-- **A backup right after a backup.**  It does nothing exactly for jobs without registry
keys: those are captured anew each time. -/
theorem runBackup_twice_iff (job : SaveJob) (t : Tree) (mtime : PathBuf → ℤ) (m : Machine)
    (env env' : BackupEnv)
    (first : collect g pf job.patterns job.excludes job.anchor mtime t = some env.saves)
    (second : collect g pf job.patterns job.excludes job.anchor mtime t = some env'.saves) :
    runBackup (m.run (runBackup m job.toBackupJob env).2) job.toBackupJob env' = (.noChange, []) ↔
      job.registryKeys = [] := by
  have hsaves : env'.saves = env.saves := Option.some.inj (second.symm.trans first)
  constructor
  · intro hnone
    rcases runBackup_cases (m.run (runBackup m job.toBackupJob env).2) job.toBackupJob env' with
      ⟨hpack, -⟩ | ⟨p, -, ⟨advance, -, hrun⟩ | ⟨-, hrun⟩⟩
    · exact (packBackup_eq_none_iff.mp hpack).elim And.right And.left
    · rw [hnone] at hrun
      cases hrun
    · rw [hnone] at hrun
      cases hrun
  · intro hkeys
    refine runBackup_of_none (packBackup_eq_none_iff.mpr ?_)
    by_cases hpatterns : job.patterns = []
    · exact .inl ⟨hpatterns, hkeys⟩
    · obtain ⟨snap, hsnap, hmap⟩ := runBackup_snapshot m job.toBackupJob env
        fun htargets => hpatterns htargets.1
      exact .inr ⟨hkeys, snap, hsnap, by rw [hmap, hsaves]⟩

end Pipeline

section Example

local instance computerDigest : Blake3 := plainDigest

/-- A job with these registry keys. -/
def keyedJob (registryKeys : List String) : SaveJob where
  gameId := 10
  patterns := ["/game/*"]
  registryKeys := registryKeys
  anchor := exampleDir ["game"]
  excludes := []

/-- What a backup of the example collects. -/
def keyedSaves : SaveSet :=
  .ofFound segmentGlob linux [] (exampleDir ["game"]) (fun _ => 0)
    [(exampleDir ["game", "save"], [1])]

theorem collect_keyedJob (registryKeys : List String) :
    collect segmentGlob linux (keyedJob registryKeys).patterns (keyedJob registryKeys).excludes
      (keyedJob registryKeys).anchor (fun _ => 0) (exampleTree [(["game", "save"], [1])])
      = some keyedSaves := by
  have hfound : found segmentGlob linux ["/game/*"] (exampleTree [(["game", "save"], [1])])
      = some [(exampleDir ["game", "save"], [1])] := by decide
  exact congrArg (Option.map _) hfound

/-- Without registry keys the second backup does nothing. -/
theorem runBackup_twice_without_keys :
    runBackup (newMachine.run (runBackup newMachine (keyedJob []).toBackupJob
        (exampleBackup keyedSaves false .none 1)).2)
      (keyedJob []).toBackupJob (exampleBackup keyedSaves false .none 2) = (.noChange, []) :=
  (runBackup_twice_iff segmentGlob linux (keyedJob []) (exampleTree [(["game", "save"], [1])])
    (fun _ => 0) newMachine _ _ (collect_keyedJob []) (collect_keyedJob [])).mpr rfl

/-- With a registry key, the same saves are packed and queued a second time. -/
theorem registry_key_queues_twice :
    collect segmentGlob linux (keyedJob ["HKCU/Game"]).patterns (keyedJob ["HKCU/Game"]).excludes
      (keyedJob ["HKCU/Game"]).anchor (fun _ => 0) (exampleTree [(["game", "save"], [1])])
      = some keyedSaves ∧
    (runBackup (newMachine.run (runBackup newMachine (keyedJob ["HKCU/Game"]).toBackupJob
        (exampleBackup keyedSaves false .none 1)).2)
      (keyedJob ["HKCU/Game"]).toBackupJob (exampleBackup keyedSaves false .none 2)).1 = .queued ∧
    ((newMachine.run (runBackup newMachine (keyedJob ["HKCU/Game"]).toBackupJob
        (exampleBackup keyedSaves false .none 1)).2).run
      (runBackup (newMachine.run (runBackup newMachine (keyedJob ["HKCU/Game"]).toBackupJob
        (exampleBackup keyedSaves false .none 1)).2)
      (keyedJob ["HKCU/Game"]).toBackupJob
        (exampleBackup keyedSaves false .none 2)).2).device.state.outbox.length = 2 :=
  ⟨collect_keyedJob _, by decide, by decide⟩

end Example

end Savr
