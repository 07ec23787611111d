import Savr.Daemon.CrashConsistency
import Savr.Daemon.Restore

/-!
# Pulls

What a device does when the server tells it of a version: `on_version_available` and
`restore` of `savr-daemon/src/engine.rs`, and `run_restore` of `restore.rs` with its
pre-restore backup and its swap, over the save files on disk.

The guard against overwriting unsynced saves is left to the pre-restore backup.

## Main results

* `Disk.replace_covered` — a swap leaves exactly the merged files where the saves were.
* `runBackup_snapshot` — after a pre-restore backup the stored snapshot lists the saves.
-/

namespace Savr

/-- The files under a game's anchor, by `rel_path`. -/
abbrev Disk := String → Option Bytes

/-- `Path::with_extension`: what follows the last dot of the file name is replaced.  A
leading dot starts no extension. -/
def withExtension (path extension : String) : String :=
  let chars := path.toList.reverse
  let name := chars.takeWhile (· ≠ '/')
  let stem := match name.dropWhile (· ≠ '.') with
    | [] | [_] => name
    | _ :: stem => stem
  String.ofList ((stem ++ chars.dropWhile (· ≠ '/')).reverse ++ '.' :: extension.toList)

/-- Where a file is copied to before it is renamed into place. -/
def tmpPath (relPath : String) : String :=
  withExtension relPath "savr-restore-tmp"

namespace Disk

/-- Copy to the temporary path, then rename. -/
def place (disk : Disk) (relPath : String) (bytes : Bytes) : Disk :=
  Function.update (Function.update disk (tmpPath relPath) none) relPath (some bytes)

/-- Write the merged files, in the order the `HashMap` is iterated. -/
def swap (disk : Disk) (merged : String → Option Bytes) (order : List String) : Disk :=
  order.foldl (fun disk relPath =>
    match merged relPath with
    | some bytes => disk.place relPath bytes
    | none => disk) disk

/-- Delete the files of the last snapshot that the target no longer has. -/
def dropStale (disk : Disk) (merged : String → Option Bytes) (last : Option StoredSnapshot) :
    Disk :=
  fun path =>
    match last with
    | none => disk path
    | some snap =>
        if path ∈ snap.files.map FileEntry.relPath ∧ merged path = none then none else disk path

end Disk

/-- The pinned settings of one game. -/
structure GameConfig where
  autopull : Option AutoPullPolicy
  deriving DecidableEq, Repr

/-- The settings, as far as pulls depend on them. -/
structure Config where
  autopull : AutoPullPolicy
  /-- Pinned settings, by title. -/
  games : String → Option GameConfig

/-- A game of the catalog with its resolved save targets. -/
structure GameEntry where
  title : String
  patterns : List String
  registryKeys : List String
  /-- The patterns match the file at this path. -/
  covers : String → Bool

/-- The part of the engine a pull reads. -/
structure Catalog where
  config : Config
  games : GameId → Option GameEntry
  running : GameId → Bool

/-- The policy pinned for the game, or else the general one. -/
def Catalog.policy (c : Catalog) (gameId : GameId) : AutoPullPolicy :=
  (((c.games gameId).bind fun entry => c.config.games entry.title).bind
    GameConfig.autopull).getD c.config.autopull

/-- The files the patterns match. -/
def GameEntry.covered (entry : GameEntry) (disk : Disk) : Disk :=
  fun path => if entry.covers path then disk path else none

/-- `Snapshot::build` collects these saves from the disk. -/
def GameEntry.Collects (entry : GameEntry) (disk : Disk) (saves : SaveSet) : Prop :=
  ∀ path, saves.read path = entry.covered disk path

/-- The job of a pre-restore backup. -/
def GameEntry.job (entry : GameEntry) (gameId : GameId) : BackupJob where
  gameId := gameId
  patterns := entry.patterns
  registryKeys := entry.registryKeys

/-- A device with its save files, the server, and the notifications raised. -/
structure Site where
  machine : Machine
  disk : GameId → Disk
  /-- `SaveAvailable` events. -/
  notices : List GameId

/-- What the environment decides about one pull: the backup before it, the answers of the
server, and the order of the hash map of merged files. -/
structure PullEnv where
  /-- About the pre-restore backup; it sets its own `full_every`. -/
  backup : BackupEnv
  /-- `list_versions` is answered. -/
  listed : Bool
  /-- The download of a version's archive gets through. -/
  fetched : VersionId → Bool
  /-- The order in which the merged files are iterated. -/
  order : List String

/-- Why a pull left the saves alone. All of these are found before the first file is swapped. -/
inductive PullError
  /-- `unknown game {game_id}`. -/
  | unknownGame
  /-- `refusing to restore {game_id}: game is running`. -/
  | gameRunning
  /-- `refusing to restore {game_id}: no known save paths for this game`. -/
  | noSavePaths
  | noReply
  | restore (e : RestoreError)
  /-- `build_chain` does not end. -/
  | endless
  deriving DecidableEq, Repr

section General

variable [Blake3]

/-- Build the chain, fetch its archives and merge them. Nothing outside the scratch directory
has been written when it fails. -/
def download (m : Machine) (gameId : GameId) (target : VersionId) (env : PullEnv) :
    Except PullError (String → Option Bytes) :=
  if env.listed then
    match buildChain (m.server.db.listVersions m.device.accountId gameId) target with
    | none => .error .endless
    | some (.error e) => .error (.restore (.chain e))
    | some (.ok chain) =>
        if chain.all fun v => env.fetched v.id then
          match mergeChain m.server m.device.accountId (fun _ => none) chain with
          | .error e => .error (.restore e)
          | .ok merged => .ok merged
        else .error .noReply
  else .error .noReply

namespace Site

variable (s : Site) (c : Catalog) (gameId : GameId) (target : VersionId) (env : PullEnv)

/-- What the pre-restore backup does: `full_every` is `u32::MAX`. -/
def preBackup (entry : GameEntry) : List Action :=
  (runBackup s.machine (entry.job gameId) { env.backup with fullEvery := 2 ^ 32 - 1 }).2

/-- Swap the merged files in, and record the target as the new base. -/
def swapIn (merged : String → Option Bytes) (order : List String) : Site :=
  { s with
    machine := s.machine.run (runRestore s.machine gameId target)
    disk := Function.update s.disk gameId
      (((s.disk gameId).swap merged order).dropStale merged
        (s.machine.device.state.snapshots gameId)) }

/-- `Engine::restore`: the checks before a restore, and the restore. A backup comes first,
and the restore does not look at its outcome. -/
def restore : Site × Except PullError Unit :=
  match c.games gameId with
  | none => (s, .error .unknownGame)
  | some entry =>
      if c.running gameId then (s, .error .gameRunning)
      else if entry.patterns.isEmpty && entry.registryKeys.isEmpty then (s, .error .noSavePaths)
      else
        -- whatever became of the backup, the restore goes on
        let s := { s with machine := s.machine.run (s.preBackup gameId env entry) }
        match download s.machine gameId target env with
        | .error e => (s, .error e)
        | .ok merged => (s.swapIn gameId target merged env.order, .ok ())

/-- React to a `version_available` push. -/
def onVersionAvailable : Site :=
  match c.policy gameId, c.running gameId with
  | .auto, false => (s.restore c gameId target env).1
  | _, _ => { s with notices := s.notices ++ [gameId] }

end Site

end General

/-! ### The swap -/

namespace Disk

variable {disk : Disk} {merged : String → Option Bytes} {order : List String} {path : String}

/-- No merged file is where another one is copied to first. -/
def TmpFree (merged : String → Option Bytes) : Prop :=
  ∀ p q, merged p ≠ none → merged q ≠ none → tmpPath p = q → p = q

theorem swap_cons_some {p : String} {bytes : Bytes} (h : merged p = some bytes) :
    disk.swap merged (p :: order) = (disk.place p bytes).swap merged order := by
  simp [swap, h]

theorem swap_cons_none {p : String} (h : merged p = none) :
    disk.swap merged (p :: order) = disk.swap merged order := by
  simp [swap, h]

/-- A merged file is put in place when its turn comes. -/
theorem swap_of_merged (free : TmpFree merged) {bytes : Bytes} (h : merged path = some bytes) :
    disk.swap merged order path = if path ∈ order then some bytes else disk path := by
  have hpath : merged path ≠ none := by simp [h]
  induction order generalizing disk with
  | nil => rfl
  | cons p order ih =>
      cases hm : merged p with
      | none =>
          have hp : path ≠ p := by
            rintro rfl
            exact hpath hm
          rw [swap_cons_none hm, ih]
          simp [hp]
      | some b =>
          rw [swap_cons_some hm, ih]
          by_cases hp : path = p
          · subst hp
            obtain rfl : bytes = b := by simpa [h] using hm
            simp [place]
          · -- neither the other file nor its temporary copy is at `path`
            have htmp : path ≠ tmpPath p := fun heq =>
              hp (free p path (by simp [hm]) hpath heq.symm).symm
            simp [place, hp, htmp]

/-- Any other file is left alone, or is a temporary copy that is gone. -/
theorem swap_of_not_merged (h : merged path = none) :
    disk.swap merged order path = disk path ∨ disk.swap merged order path = none := by
  induction order generalizing disk with
  | nil => exact Or.inl rfl
  | cons p order ih =>
      cases hm : merged p with
      | none =>
          rw [swap_cons_none hm]
          exact ih
      | some b =>
          have hp : path ≠ p := by
            rintro rfl
            simp [hm] at h
          rw [swap_cons_some hm]
          have hrest : (disk.place p b).swap merged order path = disk.place p b path ∨ _ := ih
          refine hrest.elim (fun heq => ?_) Or.inr
          by_cases htmp : path = tmpPath p
          · refine Or.inr (heq.trans ?_)
            rw [place, Function.update_of_ne hp, htmp, Function.update_self]
          · refine Or.inl (heq.trans ?_)
            rw [place, Function.update_of_ne hp, Function.update_of_ne htmp]

/-- **A swap replaces the saves.**  If the last snapshot lists every save, the patterns
match exactly the merged files afterwards. -/
theorem replace_covered {entry : GameEntry} {last : Option StoredSnapshot}
    (free : TmpFree merged) (complete : ∀ p, merged p ≠ none → p ∈ order)
    (listed : ∀ p, entry.covered disk p ≠ none →
      ∃ snap, last = some snap ∧ p ∈ snap.files.map FileEntry.relPath) :
    entry.covered ((disk.swap merged order).dropStale merged last) = entry.covered merged := by
  funext path
  unfold GameEntry.covered
  split
  · rename_i hcovers
    cases hm : merged path with
    | some bytes =>
        have hswap : disk.swap merged order path = _ := swap_of_merged free hm
        rw [if_pos (complete path (by simp [hm]))] at hswap
        cases last <;> simp [dropStale, hm, hswap]
    | none =>
        by_cases hdisk : disk path = none
        · have hswap : disk.swap merged order path = none :=
            (swap_of_not_merged hm).elim (fun h => h.trans hdisk) id
          cases last <;> simp [dropStale, hswap]
        · obtain ⟨snap, rfl, hpath⟩ :=
            listed path (by simpa [GameEntry.covered, hcovers] using hdisk)
          exact if_pos ⟨hpath, hm⟩
  · rfl

end Disk

/-! ### The pre-restore backup -/

section PreBackup

variable [Blake3] {m : Machine} {job : BackupJob} {env : BackupEnv}

/-- Nothing is packed exactly when there are no targets, or a snapshot of a game without
registry keys lists the saves. -/
theorem packBackup_eq_none_iff {d : Device} :
    packBackup d job env = none ↔
      (job.patterns = [] ∧ job.registryKeys = []) ∨
      (job.registryKeys = [] ∧ ∃ snap, d.state.snapshots job.gameId = some snap ∧
        fileMap snap.files = fileMap (env.saves.files.map SaveFile.entry)) := by
  unfold packBackup
  split
  · rename_i hempty
    simp only [Bool.and_eq_true, List.isEmpty_iff] at hempty
    simp [hempty]
  · rename_i hsome
    simp only [Bool.and_eq_true, List.isEmpty_iff] at hsome
    rw [Option.map_eq_none_iff, backupDiff, or_iff_right hsome]
    cases hsnap : d.state.snapshots job.gameId with
    | none => simp
    | some snap =>
        have hdiff : (diff { gameId := job.gameId, files := snap.files, takenAt := snap.takenAt }
            (Snapshot.build job.gameId env.saves env.takenAt)).isEmpty = true ↔ _ :=
          diff_isEmpty_iff env.saves.distinctPaths
        by_cases hkeys : job.registryKeys = []
        · simpa [hkeys, Snapshot.build] using hdiff
        · simp [hkeys]

/-- **After a backup the stored snapshot lists the saves**, whatever its outcome. -/
theorem runBackup_snapshot (m : Machine) (job : BackupJob) (env : BackupEnv)
    (targets : ¬ (job.patterns = [] ∧ job.registryKeys = [])) :
    ∃ snap, (m.run (runBackup m job env).2).device.state.snapshots job.gameId = some snap ∧
      fileMap snap.files = fileMap (env.saves.files.map SaveFile.entry) := by
  rcases runBackup_cases m job env with ⟨hp, hrun⟩ | ⟨p, hp, hcases⟩
  · rw [hrun]
    exact ((packBackup_eq_none_iff.mp hp).resolve_left targets).2
  · have hfiles := (packBackup_eq_some hp).1
    -- each of the three ways to record the backup puts its files into the snapshot
    rcases hcases with ⟨advance, -, hrun⟩ | ⟨-, hrun⟩
    · rw [hrun, Machine.run_append]
      cases advance with
      | fastForward version | conflict head version =>
          refine ⟨⟨p.create.files, p.takenAt, some version.id⟩, ?_, congrArg fileMap hfiles⟩
          simp [settleBackup, confirmBackup, recordBranch, Write.apply, LocalState.putSnapshot]
    · rw [hrun, Machine.run_append]
      refine ⟨⟨p.create.files, p.takenAt, p.create.parent⟩, ?_, congrArg fileMap hfiles⟩
      simp [queueBackup, Write.apply, LocalState.putSnapshot, LocalState.enqueueOutbox]

end PreBackup

end Savr
