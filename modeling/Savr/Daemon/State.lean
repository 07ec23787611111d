import Savr.Core.Snapshot
import Savr.Lib.Ranked
import Savr.Lib.Script
import Savr.Server.Api

/-!
# A device and its persistent state

The tables of `savr-daemon/src/state.rs` that backups use, the blob cache beside
them, and the actions an operation performs: writes to the device's own state,
one at a time and without a transaction around them, and requests to the server.

The `meta` table is split by what is stored under its keys: `diffcount:{game}` is a
number, `unconfirmed:{game}` is `"1"` or not, `last_backup_at` is a time.
-/

namespace Savr

open RankedList

/-- Last snapshot stored for a game, plus the version this device last synced. -/
structure StoredSnapshot where
  files : List FileEntry
  takenAt : Timestamp
  localHead : Option VersionId
  deriving DecidableEq, Repr

/-- What an outbox entry carries. -/
structure OutboxPayload where
  gameId : GameId
  /-- `blob_hex`: the name of the archive in the blob cache. -/
  blobHash : Blake3Hash
  createVersion : CreateVersion
  deriving DecidableEq, Repr

/-- A row of `outbox`; the payload is `none` for bytes that do not parse. -/
structure OutboxRow where
  id : Uuid
  payload : Option OutboxPayload
  attempts : ℕ
  nextRetry : Option Timestamp
  deriving DecidableEq, Repr

/-- The state database of a device, as far as backups and restores use it. -/
structure LocalState where
  snapshots : GameId → Option StoredSnapshot
  outbox : List OutboxRow
  diffcount : GameId → Option ℕ
  unconfirmed : GameId → Bool
  lastBackupAt : Option Timestamp

/-- A paired device: its state database and its blob cache. -/
structure Device where
  accountId : AccountId
  deviceId : DeviceId
  state : LocalState
  /-- `{blob_cache}/{hash}.savr`. -/
  cache : Blake3Hash → Option Archive

/-- A device that has not backed up anything yet. -/
structure Device.New (d : Device) : Prop where
  snapshots : ∀ g, d.state.snapshots g = none
  outbox : d.state.outbox = []

namespace LocalState

/-- `put_snapshot`. -/
def putSnapshot (st : LocalState) (gameId : GameId) (files : List FileEntry)
    (takenAt : Timestamp) (localHead : Option VersionId) : LocalState :=
  { st with snapshots := Function.update st.snapshots gameId (some { files, takenAt, localHead }) }

/-- `UPDATE local_snapshots SET local_head = ? WHERE game_id = ?`: no row, no effect. -/
def setLocalHead (st : LocalState) (gameId : GameId) (head : VersionId) : LocalState :=
  { st with
    snapshots := Function.update st.snapshots gameId
      ((st.snapshots gameId).map fun s => { s with localHead := some head }) }

/-- `INSERT OR REPLACE INTO outbox`, keeping the attempts of a replaced row. -/
def enqueueOutbox (st : LocalState) (id : Uuid) (payload : OutboxPayload)
    (nextRetry : Timestamp) : LocalState :=
  let attempts := ((st.outbox.find? fun r => r.id = id).map OutboxRow.attempts).getD 0
  { st with
    outbox := (st.outbox.filter fun r => r.id ≠ id) ++
      [{ id, payload := some payload, attempts, nextRetry := some nextRetry }] }

/-- Items whose `next_retry` is due (or null), oldest first; nulls come first. -/
def dueOutbox (st : LocalState) (now : Timestamp) : List OutboxRow :=
  sortBy (fun r => match r.nextRetry with
    | none => 0
    | some t => t + 1)
    (st.outbox.filter fun r => match r.nextRetry with
      | none => true
      | some t => t ≤ now)

/-- `bump_outbox_attempt`. -/
def bumpOutboxAttempt (st : LocalState) (id : Uuid) (nextRetry : Timestamp) : LocalState :=
  { st with
    outbox := st.outbox.map fun r =>
      if r.id = id then { r with attempts := r.attempts + 1, nextRetry := some nextRetry }
      else r }

/-- `remove_outbox`. -/
def removeOutbox (st : LocalState) (id : Uuid) : LocalState :=
  { st with outbox := st.outbox.filter fun r => r.id ≠ id }

end LocalState

/-- One persistent write of a device. Each is a statement of the database or a file
operation, so a crash keeps or loses it as a whole. -/
inductive Write
  | putSnapshot (gameId : GameId) (files : List FileEntry) (takenAt : Timestamp)
      (localHead : Option VersionId)
  | setLocalHead (gameId : GameId) (head : VersionId)
  | setUnconfirmed (gameId : GameId) (value : Bool)
  | setDiffcount (gameId : GameId) (value : ℕ)
  | setLastBackupAt (at_ : Timestamp)
  | enqueueOutbox (id : Uuid) (payload : OutboxPayload) (nextRetry : Timestamp)
  | bumpOutboxAttempt (id : Uuid) (nextRetry : Timestamp)
  | removeOutbox (id : Uuid)
  /-- A packed archive gets its final name in the blob cache. -/
  | cacheArchive (hash : Blake3Hash) (archive : Archive)
  | removeArchive (hash : Blake3Hash)
  deriving DecidableEq, Repr

/-- What a write does to the device: it changes the one table or file that it is for. -/
def Write.apply (d : Device) : Write → Device
  | putSnapshot gameId files takenAt localHead =>
      { d with state := d.state.putSnapshot gameId files takenAt localHead }
  | setLocalHead gameId head => { d with state := d.state.setLocalHead gameId head }
  | setUnconfirmed gameId value =>
      { d with state := { d.state with
          unconfirmed := Function.update d.state.unconfirmed gameId value } }
  | setDiffcount gameId value =>
      { d with state := { d.state with
          diffcount := Function.update d.state.diffcount gameId (some value) } }
  | setLastBackupAt at_ => { d with state := { d.state with lastBackupAt := some at_ } }
  | enqueueOutbox id payload nextRetry =>
      { d with state := d.state.enqueueOutbox id payload nextRetry }
  | bumpOutboxAttempt id nextRetry =>
      { d with state := d.state.bumpOutboxAttempt id nextRetry }
  | removeOutbox id => { d with state := d.state.removeOutbox id }
  | cacheArchive hash archive =>
      { d with cache := Function.update d.cache hash (some archive) }
  | removeArchive hash => { d with cache := Function.update d.cache hash none }

/-- A request that reaches the server, with the values the server draws for it. -/
inductive Request
  | blobPut (hash : Blake3Hash) (body : Archive) (now : Timestamp)
  | createVersion (gameId : GameId) (req : CreateVersion) (id : VersionId) (now : Timestamp)
  | resolve (gameId : GameId) (winner : VersionId) (keepBoth : Bool) (id : Uuid)
      (now : Timestamp)
  deriving DecidableEq, Repr

/-- A write of the device, or a request to the server. -/
inductive Action
  | write (w : Write)
  | request (r : Request)
  deriving DecidableEq, Repr

/-- One device and the server. -/
structure Machine where
  device : Device
  server : Server

namespace Machine

variable [Blake3]

/-- Who the server takes the device for. -/
def authed (m : Machine) : Authed where
  accountId := m.device.accountId
  deviceId := m.device.deviceId

/-- What a request does to the server. -/
def serve (m : Machine) : Request → Server
  | .blobPut hash body now => (m.server.blobPut hash body now).1
  | .createVersion gameId req id now =>
      (m.server.createVersion m.authed gameId req id now).1
  | .resolve gameId winner keepBoth id now =>
      (m.server.resolve m.authed gameId winner keepBoth id now).1

/-- What an action does to the device or the server. -/
def apply (m : Machine) : Action → Machine
  | .write w => { m with device := w.apply m.device }
  | .request r => { m with server := m.serve r }

/-- The state after a list of actions. -/
def run (m : Machine) (actions : List Action) : Machine :=
  Script.run apply m actions

/-- An id drawn for this action is new: that of a created version on the server,
that of an outbox row on the device. -/
def FreshAction (m : Machine) : Action → Prop
  | .request (.createVersion _ req id _) =>
      req.parent ≠ some id ∧ ∀ v ∈ m.server.db.versions, v.id ≠ id
  | .write (.enqueueOutbox id _ _) => ∀ r ∈ m.device.state.outbox, r.id ≠ id
  | _ => True

/-- The ids drawn along the way are new. -/
def FreshFor : Machine → List Action → Prop
  | _, [] => True
  | m, a :: as => m.FreshAction a ∧ FreshFor (m.apply a) as

instance (m : Machine) : ∀ a, Decidable (m.FreshAction a)
  | .request (.createVersion _ req id _) =>
      inferInstanceAs (Decidable (req.parent ≠ some id ∧ ∀ v ∈ m.server.db.versions, v.id ≠ id))
  | .write (.enqueueOutbox id _ _) =>
      inferInstanceAs (Decidable (∀ r ∈ m.device.state.outbox, r.id ≠ id))
  | .request (.blobPut _ _ _) | .request (.resolve _ _ _ _ _)
  | .write (.putSnapshot _ _ _ _) | .write (.setLocalHead _ _) | .write (.setUnconfirmed _ _)
  | .write (.setDiffcount _ _) | .write (.setLastBackupAt _) | .write (.bumpOutboxAttempt _ _)
  | .write (.removeOutbox _) | .write (.cacheArchive _ _) | .write (.removeArchive _) =>
      isTrue trivial

instance decidableFreshFor : ∀ (m : Machine) (as : List Action), Decidable (m.FreshFor as)
  | _, [] => isTrue trivial
  | m, a :: as =>
      have := decidableFreshFor (m.apply a) as
      inferInstanceAs (Decidable (m.FreshAction a ∧ (m.apply a).FreshFor as))

end Machine

end Savr
