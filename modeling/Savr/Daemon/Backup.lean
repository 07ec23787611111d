import Savr.Daemon.State

/-!
# The backup pipeline

`savr-daemon/src/backup.rs`: snapshot, diff, pack, upload, with an outbox for what
could not be uploaded.

An operation is the list of actions it performs, in order; the replies of the
server it waits for are computed from the server's state at that point.  What the
environment decides is an argument: whether the device is paired, which request of
an upload gets lost, the ids and times that are drawn.
-/

namespace Savr

variable [Blake3]

/-! ### `upload_version` -/

/-- What the network does to the requests of one upload: at most one of them, or its reply,
is lost. After that the upload stops, and the backup is queued. -/
inductive Fault
  /-- Every request and every reply gets through. -/
  | none
  /-- The `HEAD` request fails. -/
  | head
  /-- The `PUT` does not reach the server, or its reply is lost. -/
  | put
  | putReply
  /-- The `POST` does not reach the server, or its reply is lost. -/
  | post
  | postReply
  deriving DecidableEq, Repr

/-- The id and time the server draws for a version. -/
structure Draw where
  versionId : VersionId
  now : Timestamp
  deriving DecidableEq, Repr

/-- `POST` the version: the requests that reach the server, and the reply if one
comes back. -/
def postVersion (m : Machine) (fault : Fault) (gameId : GameId) (create : CreateVersion)
    (draw : Draw) : List Action × Option Advance :=
  let request := Action.request (.createVersion gameId create draw.versionId draw.now)
  match fault with
  | .post => ([], none)
  | .postReply => ([request], none)
  | _ =>
      ([request],
        match (m.server.createVersion m.authed gameId create draw.versionId draw.now).2.1 with
        | .ok advance => some advance
        | .error _ => none)

/-- `HEAD` the blob (dedup), `PUT` if absent, then `POST` the version.  The archive
is read from the blob cache; `none` is the error case. -/
def uploadVersion (m : Machine) (fault : Fault) (gameId : GameId) (create : CreateVersion)
    (archivePath : Blake3Hash) (draw : Draw) : List Action × Option Advance :=
  if fault = .head then ([], none)
  else if m.server.blobExists create.blobHash then postVersion m fault gameId create draw
  else
    match m.device.cache archivePath with
    | none => ([], none)
    | some body =>
        let request := Action.request (.blobPut create.blobHash body draw.now)
        if fault = .put then ([], none)
        else if fault = .putReply then ([request], none)
        else
          match (m.server.blobPut create.blobHash body draw.now).2 with
          | .error _ => ([request], none)
          | .ok _ =>
              let (requests, reply) := postVersion (m.apply request) fault gameId create draw
              (request :: requests, reply)

/-! ### `run_backup` -/

/-- What `run_backup` is asked to save. -/
structure BackupJob where
  gameId : GameId
  patterns : List String
  registryKeys : List String
  deriving DecidableEq, Repr

/-- How a backup ends. -/
inductive BackupOutcome
  | noChange
  | uploaded (version : Version)
  | queued
  | conflict (head : Option Version) (incoming : Version)
  deriving DecidableEq, Repr

/-- What the environment decides about one call of `run_backup`: what is on disk, the ids and
the times that are drawn, and how the network behaves. -/
structure BackupEnv where
  deviceId : DeviceId
  fullEvery : ℕ
  /-- What `Snapshot::build` collects under the job's patterns. -/
  saves : SaveSet
  takenAt : Timestamp
  packedAt : Timestamp
  /-- There is a client and it is authenticated. -/
  authenticated : Bool
  fault : Fault
  draw : Draw
  outboxId : Uuid
  queuedAt : Timestamp
  doneAt : Timestamp

/-- `capture_registry`: not implemented on any platform. -/
def captureRegistry (_keys : List String) : Option Bytes := none

/-- `build_payload`, with the bytes `pack` reads at each path. -/
def buildPayload (saves : SaveSet) (files : List FileEntry) : List (String × Bytes) :=
  files.filterMap fun f => (saves.read f.relPath).map fun bytes => (f.relPath, bytes)

/-- The diff of the current save against the stored snapshot; `none` when there is
nothing to back up. -/
def backupDiff (d : Device) (job : BackupJob) (new : Snapshot) :
    Option (List FileEntry × List String) :=
  match d.state.snapshots job.gameId with
  | none => some (new.files, [])
  | some prev =>
      let diff := diff { gameId := job.gameId, files := prev.files, takenAt := prev.takenAt } new
      if diff.isEmpty && job.registryKeys.isEmpty then none
      else some (diff.changed, diff.deleted)

/-- The version the stored snapshot names, which a backup declares as its parent. -/
def Device.parent (d : Device) (gameId : GameId) : Option VersionId :=
  (d.state.snapshots gameId).bind StoredSnapshot.localHead

/-- Differentials since the last full. -/
def Device.priorDiffs (d : Device) (gameId : GameId) : ℕ :=
  (d.state.diffcount gameId).getD 0

/-- Full on the first backup, periodically, and while the previous backup is
unconfirmed. -/
def Device.backupKind (d : Device) (fullEvery : ℕ) (gameId : GameId) : VersionKind :=
  if (d.parent gameId).isNone || fullEvery ≤ d.priorDiffs gameId || d.state.unconfirmed gameId
  then .full else .differential

/-- A backup packed and ready to upload. -/
structure Packed where
  archive : Archive
  create : CreateVersion
  takenAt : Timestamp
  deriving DecidableEq, Repr

/-- Everything `run_backup` does before it touches the disk: `none` is `NoChange`. A full
backup packs every file and no deletions, a differential what changed since the last
snapshot. -/
def packBackup (d : Device) (job : BackupJob) (env : BackupEnv) : Option Packed :=
  if job.patterns.isEmpty && job.registryKeys.isEmpty then none
  else
    let new := Snapshot.build job.gameId env.saves env.takenAt
    (backupDiff d job new).map fun (changed, deleted) =>
      let parent := d.parent job.gameId
      let kind := d.backupKind env.fullEvery job.gameId
      let payloadFiles := match kind with
        | .full => new.files
        | .differential => changed
      let deletions := match kind with
        | .full => []
        | .differential => deleted
      let archive : Archive :=
        { metadata :=
            { gameId := job.gameId, deviceId := env.deviceId, parent, kind,
              files := new.files, deletions, createdAt := env.packedAt }
          payload := buildPayload env.saves payloadFiles
          registry := captureRegistry job.registryKeys }
      { archive
        create :=
          { parent, kind, files := new.files, blobHash := Blake3.ofArchive archive,
            bytes := Blake3.packedLen archive, deviceId := env.deviceId }
        takenAt := new.takenAt }

/-- `queue_backup`. -/
def queueBackup (gameId : GameId) (p : Packed) (env : BackupEnv) : List Action :=
  [.write (.enqueueOutbox env.outboxId
      { gameId, blobHash := p.create.blobHash, createVersion := p.create } env.queuedAt),
   .write (.putSnapshot gameId p.create.files p.takenAt p.create.parent),
   .write (.setUnconfirmed gameId true)]

/-- `bump_diff_counter`. -/
def nextDiffcount (kind : VersionKind) (prior : ℕ) : ℕ :=
  match kind with
  | .full => 0
  | .differential => prior + 1

/-- What is recorded once the server has confirmed the version. -/
def confirmBackup (d : Device) (gameId : GameId) (p : Packed) (env : BackupEnv)
    (version : Version) : List Action :=
  [.write (.putSnapshot gameId p.create.files p.takenAt (some version.id)),
   .write (.setUnconfirmed gameId false),
   .write (.setDiffcount gameId (nextDiffcount p.create.kind (d.priorDiffs gameId))),
   .write (.setLastBackupAt env.doneAt),
   .write (.removeArchive p.create.blobHash)]

/-- What is recorded when the server stored the version as a branch. -/
def recordBranch (gameId : GameId) (p : Packed) (incoming : Version) : List Action :=
  [.write (.putSnapshot gameId p.create.files p.takenAt (some incoming.id)),
   .write (.setUnconfirmed gameId false),
   .write (.removeArchive p.create.blobHash)]

/-- The bookkeeping after an answered upload. -/
def settleBackup (d : Device) (gameId : GameId) (p : Packed) (env : BackupEnv) :
    Advance → List Action
  | .fastForward version => confirmBackup d gameId p env version
  | .conflict _ incoming => recordBranch gameId p incoming

/-- The upload of a packed backup, from a device that has it in its cache. -/
def Packed.upload (m : Machine) (gameId : GameId) (p : Packed) (env : BackupEnv) :
    List Action × Option Advance :=
  if env.authenticated then
    uploadVersion m env.fault gameId p.create p.create.blobHash env.draw
  else ([], none)

/-- Run one backup for a game: its outcome, and the writes and requests in the order in which
they are made. A crash keeps a beginning of them. -/
def runBackup (m : Machine) (job : BackupJob) (env : BackupEnv) :
    BackupOutcome × List Action :=
  match packBackup m.device job env with
  | none => (.noChange, [])
  | some p =>
      let pack := Action.write (.cacheArchive p.create.blobHash p.archive)
      let (requests, reply) := p.upload (m.apply pack) job.gameId env
      match reply with
      | some advance =>
          (match advance with
            | .fastForward version => .uploaded version
            | .conflict head incoming => .conflict head incoming,
            pack :: requests ++ settleBackup m.device job.gameId p env advance)
      | none => (.queued, pack :: requests ++ queueBackup job.gameId p env)

/-! ### `retry_outbox` -/

/-- Seconds before the next attempt: 1, 2, 4, 8 … capped at five minutes. -/
def backoffDelay (attempts : ℕ) : ℕ :=
  min (2 ^ min attempts 9) 300

/-- What the environment decides about one entry of a drain. -/
structure RetryEnv where
  fault : Fault
  draw : Draw
  doneAt : Timestamp

/-- One due entry: an unreadable one is dropped, one that is answered is settled, conflict or
not, and one that fails waits longer before the next attempt. -/
def retryItem (m : Machine) (now : Timestamp) (item : OutboxRow) (env : RetryEnv) :
    List Action :=
  match item.payload with
  | none => [.write (.removeOutbox item.id)]
  | some payload =>
      let (requests, reply) :=
        uploadVersion m env.fault payload.gameId payload.createVersion payload.blobHash env.draw
      match reply with
      | some (.fastForward version) =>
          requests ++
            [.write (.setLocalHead payload.gameId version.id),
             .write (.setLastBackupAt env.doneAt),
             .write (.removeOutbox item.id),
             .write (.removeArchive payload.blobHash)]
      | some (.conflict _ incoming) =>
          requests ++
            [.write (.setLocalHead payload.gameId incoming.id),
             .write (.removeOutbox item.id),
             .write (.removeArchive payload.blobHash)]
      | none =>
          requests ++
            [.write (.bumpOutboxAttempt item.id
              (now + backoffDelay item.attempts * 10 ^ 9))]

/-- The loop over the due entries, each on the state the one before it left. -/
def retryLoop (now : Timestamp) (env : Uuid → RetryEnv) : Machine → List OutboxRow → List Action
  | _, [] => []
  | m, item :: items =>
      let actions := retryItem m now item (env item.id)
      actions ++ retryLoop now env (m.run actions) items

/-- Drain due outbox entries. -/
def retryOutbox (m : Machine) (authenticated : Bool) (now : Timestamp)
    (env : Uuid → RetryEnv) : List Action :=
  if authenticated then retryLoop now env m (m.device.state.dueOutbox now) else []

end Savr
