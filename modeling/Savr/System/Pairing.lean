import Savr.Daemon.Catalog
import Savr.Daemon.CrashConsistency

/-!
# Backups before pairing

The daemon of one device from its first start on: it scans for games and backs them up
before it has ever seen a server, is then paired, and refreshes its catalog.  What it queued
until then is submitted by `retry_outbox` of `savr-daemon/src/backup.rs` as it was queued.

Until it is paired, the engine has no device id and stands in the nil one
(`trigger_backup`, `backup_now`).

## Main results

* `early_backups_accepted_iff` — which runs end with every such backup accepted.
-/

namespace Savr

open LabelledRun

/-- A device before and after it is paired, and its server. Before, it has the nil id and no
account, and its backups are queued. -/
structure PairingWorld where
  /-- The account and the device id, once there are any. -/
  credentials : Option Authed
  state : LocalState
  cache : Blake3Hash → Option Archive
  ids : GameIds
  games : List Game
  server : Server

/-- What happens next on the device. Scans, backups and retries come in any order, and others
use the server in between. -/
inductive PairingEvent
  | refresh (enrichIds : Bool) (library : Library)
  | backup (job : BackupJob) (env : BackupEnv) (outcome : BackupOutcome)
  | pair (account : AccountId) (device : DeviceId) (name : String) (os : Os)
      (tokenHash : String) (now : Timestamp)
  | retry (now : Timestamp) (env : Uuid → RetryEnv)
  /-- Something the server does for others. -/
  | service (ev : ServiceEvent)

namespace PairingWorld

/-- `device_id().unwrap_or_else(Uuid::nil)`. -/
def deviceId (w : PairingWorld) : DeviceId :=
  (w.credentials.map Authed.deviceId).getD Uuid.nil

/-- The account, once there is one. -/
def accountId (w : PairingWorld) : Option AccountId :=
  w.credentials.map Authed.accountId

/-- The device as the pipeline sees it; an unpaired one has the nil account. -/
def machine (w : PairingWorld) : Machine where
  device :=
    { accountId := w.accountId.getD Uuid.nil, deviceId := w.deviceId, state := w.state,
      cache := w.cache }
  server := w.server

/-- A device that has never been started, and a server all of whose devices were paired. -/
structure New (w : PairingWorld) : Prop where
  unpaired : w.credentials = none
  outbox : w.state.outbox = []
  devices : ∀ d ∈ w.server.db.devices, d.id ≠ Uuid.nil

variable [Blake3]

/-- A backup is of a game of the catalog, under the engine's device id, and goes through the
server only from a paired device. -/
def Enabled (w : PairingWorld) : PairingEvent → Prop
  | .refresh _ _ => True
  | .backup job env outcome =>
      (∃ g ∈ w.games, g.id = job.gameId) ∧ env.deviceId = w.deviceId ∧
      (env.authenticated = true → w.credentials ≠ none) ∧
      (runBackup w.machine job env).1 = outcome
  | .pair _ device _ _ _ _ => device ≠ Uuid.nil
  | .retry _ _ => w.credentials ≠ none
  | .service ev => ev.Enabled w.server

/-- The world after the device performed some actions. -/
def perform (w : PairingWorld) (as : List Action) : PairingWorld :=
  { w with
    state := (w.machine.run as).device.state
    cache := (w.machine.run as).device.cache
    server := (w.machine.run as).server }

/-- The state after an event. Pairing changes the credentials and nothing that was queued
before it. -/
def next (w : PairingWorld) : PairingEvent → PairingWorld
  | .refresh enrichIds library =>
      let c := refreshGames w.ids w.server enrichIds w.accountId library
      { w with ids := c.ids, server := c.server, games := c.games }
  | .backup job env _ => w.perform (runBackup w.machine job env).2
  | .pair account device name os tokenHash now =>
      match w.server.pair account device name os tokenHash now with
      | (server, .ok auth) => { w with credentials := some auth, server }
      | (server, .error _) => { w with server }
  | .retry now env => w.perform (retryOutbox w.machine true now env)
  | .service ev => { w with server := w.server.serve ev }

/-- What `retry_outbox` gets back for an entry when nothing is lost on the way. -/
def submit (w : PairingWorld) (p : OutboxPayload) (draw : Draw) : Option Advance :=
  (uploadVersion w.machine .none p.gameId p.createVersion p.blobHash draw).2

end PairingWorld

section General

variable [Blake3]

/-- One event after the other. -/
def PairingStep : PairingWorld → PairingEvent → PairingWorld → Prop :=
  guarded PairingWorld.Enabled PairingWorld.next

/-! ### What the steps do to the server -/

section Server

variable {s : Server} {m : Machine} {w w' : PairingWorld} {ev : PairingEvent}

/-- A version request takes nothing away. -/
theorem later_request (auth : Authed) (gameId : GameId) (req : CreateVersion) (id : VersionId)
    (now : Timestamp) : s.Later (s.createVersion auth gameId req id now).1 := by
  have heq : (s.createVersion auth gameId req id now).1 =
      s.serve (.call auth.accountId (.createVersion gameId req id now)) := by
    unfold Server.createVersion
    rw [Server.serve, Server.call]
    split <;> rfl
  rw [heq]
  exact Server.later_serve (.call auth.accountId (.createVersion gameId req id now)) trivial

/-- Nor does any action of the machine. -/
theorem later_apply (a : Action) : m.server.Later (m.apply a).server := by
  cases a with
  | write w => exact Db.Later.refl _
  | request r =>
      cases r with
      | blobPut hash body now => exact Server.later_serve (.blobPut hash body now) trivial
      | createVersion gameId req id now => exact later_request _ gameId req id now
      | resolve gameId winner keepBoth id now =>
          change m.server.Later (m.server.resolve m.authed gameId winner keepBoth id now).1
          rw [Server.resolve_server]
          exact Db.later_perform (.resolveConflict gameId winner keepBoth id now)

theorem later_run (as : List Action) : m.server.Later (m.run as).server := by
  induction as generalizing m with
  | nil => exact Db.Later.refl _
  | cons a as ih => exact Db.Later.trans (later_apply a) ih

/-- Every step of pairing and of backups leaves the server later than it was: nothing that
was stored is gone. -/
theorem PairingStep.later (step : PairingStep w ev w') : w.server.Later w'.server := by
  obtain ⟨enabled, rfl⟩ := step
  cases ev with
  | refresh enrichIds library => exact later_refreshGames enrichIds w.accountId library
  | backup job env outcome => exact later_run (m := w.machine) _
  | retry now env => exact later_run (m := w.machine) _
  | service ev => exact Server.later_serve ev enabled
  | pair account device name os tokenHash now =>
      have hlater : w.server.Later (w.server.pair account device name os tokenHash now).1 :=
        Server.later_serve (.pair account device name os tokenHash now) enabled
      cases hpair : w.server.pair account device name os tokenHash now with
      | mk server reply =>
          rw [hpair] at hlater
          cases reply with
          | ok auth => simpa only [PairingWorld.next, hpair] using hlater
          | error e => simpa only [PairingWorld.next, hpair] using hlater

/-- No device of the server ever has the nil id. -/
theorem nil_free_run {trace : List PairingEvent} (run : Run PairingStep w trace w')
    (init : ∀ d ∈ w.server.db.devices, d.id ≠ Uuid.nil) :
    ∀ d ∈ w'.server.db.devices, d.id ≠ Uuid.nil :=
  run.invariant (I := fun v => ∀ d ∈ v.server.db.devices, d.id ≠ Uuid.nil)
    (fun _ _ _ h step => step.later.devices h) init

omit [Blake3] in
/-- A version that names a device the server does not have is not stored. -/
theorem createVersion_unknown_device (auth : Authed) (gameId : GameId) {req : CreateVersion}
    (id : VersionId) (now : Timestamp) (hunknown : ∀ d ∈ s.db.devices, d.id ≠ req.deviceId) :
    ∃ e, (s.createVersion auth gameId req id now).2.1 = .error e := by
  unfold Server.createVersion
  split
  · cases htx : s.db.createVersionTx auth.accountId gameId req id now with
    | error e => exact ⟨e, by rw [Db.createVersion_eq_of_tx_error htx]⟩
    | ok r =>
        obtain ⟨-, hforeign, -⟩ := Db.createVersionTx_eq_ok_iff.mp htx
        obtain ⟨-, ⟨d, hd, hid⟩, -⟩ := Db.foreignKeysOk_iff.mp hforeign
        exact absurd hid (hunknown d hd)
  · exact ⟨_, rfl⟩

/-- The server refuses a version of a device it does not know, whatever the version is. -/
theorem submit_unknown_device {p : OutboxPayload} {draw : Draw}
    (hunknown : ∀ d ∈ w.server.db.devices, d.id ≠ p.createVersion.deviceId) :
    w.submit p draw = none := by
  unfold PairingWorld.submit
  obtain ⟨puts, hputs, heq | heq⟩ :=
    uploadVersion_cases w.machine .none p.gameId p.createVersion p.blobHash draw
  · rw [heq]
  · rw [heq]
    -- uploading the archive first does not add a device
    have hdevices : ∀ d ∈ (w.machine.run puts).server.db.devices,
        d.id ≠ p.createVersion.deviceId := by
      have hkeep : ∀ (as : List Action) (m : Machine),
          (∀ a ∈ as, ∃ body, a = .request (.blobPut p.createVersion.blobHash body draw.now)) →
          (m.run as).server.db.devices = m.server.db.devices := by
        intro as
        induction as with
        | nil => exact fun m _ => rfl
        | cons a as ih =>
            intro m has
            obtain ⟨body, rfl⟩ := has a (by simp)
            rw [Machine.run_cons, ih _ fun b hb => has b (by simp [hb])]
            change (m.server.blobPut _ body draw.now).1.db.devices = _
            unfold Server.blobPut
            split
            · exact (Db.recordBlob_frame _ _).2.2
            · rfl
      rw [hkeep puts w.machine hputs]
      exact hunknown
    obtain ⟨e, he⟩ := createVersion_unknown_device (w.machine.run puts).authed p.gameId
      draw.versionId draw.now hdevices
    simp [postVersion, he]

end Server

/-! ### What an unpaired device queues -/

section Unpaired

variable {m : Machine} {job : BackupJob} {env : BackupEnv} {w w' : PairingWorld}
  {ev : PairingEvent}

theorem packBackup_deviceId {d : Device} {p : Packed} (hp : packBackup d job env = some p) :
    p.create.deviceId = env.deviceId := by
  unfold packBackup at hp
  split at hp
  · cases hp
  · obtain ⟨⟨changed, deleted⟩, -, rfl⟩ := Option.map_eq_some_iff.mp hp
    rfl

/-- Without a server, a backup that has something to save is queued. -/
theorem runBackup_unauthenticated (m : Machine) (job : BackupJob)
    (hauth : env.authenticated = false) :
    runBackup m job env = (.noChange, []) ∨
    ∃ p, packBackup m.device job env = some p ∧
      runBackup m job env = (.queued, p.pack :: queueBackup job.gameId p env) := by
  cases hp : packBackup m.device job env with
  | none => exact Or.inl (runBackup_of_none hp)
  | some p =>
      refine Or.inr ⟨p, rfl, ?_⟩
      simp [runBackup, hp, Packed.upload, hauth, Packed.pack]

/-- The entry a queued backup leaves. -/
theorem outbox_queueBackup (m : Machine) (gameId : GameId) (p : Packed) (env : BackupEnv) :
    ∃ old row, (m.run (p.pack :: queueBackup gameId p env)).device.state.outbox = old ++ [row] ∧
      (∀ r ∈ old, r ∈ m.device.state.outbox) ∧
      row.payload = some ⟨gameId, p.create.blobHash, p.create⟩ :=
  ⟨m.device.state.outbox.filter fun r => r.id ≠ env.outboxId, _, rfl,
    fun _ hr => (List.mem_filter.mp hr).1, rfl⟩

/-- What is known of the outbox until the device is paired. -/
structure PairingWorld.Early (w : PairingWorld) (trace : List PairingEvent) : Prop where
  /-- Every entry names the nil device. -/
  nil : ∀ r ∈ w.state.outbox, ∃ p, r.payload = some p ∧ p.createVersion.deviceId = Uuid.nil
  empty_iff : w.state.outbox = [] ↔ ∀ job env, .backup job env .queued ∉ trace

omit [Blake3] in
/-- An event that is not a backup leaves the outbox as it is. -/
theorem PairingWorld.Early.of_same {trace : List PairingEvent} (h : w.Early trace)
    (houtbox : w'.state.outbox = w.state.outbox)
    (hev : ∀ job env, ev ≠ .backup job env .queued) : w'.Early (trace ++ [ev]) where
  nil := by
    rw [houtbox]
    exact h.nil
  empty_iff := by
    rw [houtbox, h.empty_iff]
    refine forall_congr' fun job => forall_congr' fun env => ?_
    rw [List.mem_append, List.mem_singleton]
    exact not_congr ⟨Or.inl, fun hmem => hmem.resolve_right (hev job env).symm⟩

/-- A backup of a device without credentials reaches no server, so what is queued is still
all that was captured. -/
theorem PairingWorld.Early.backup {trace : List PairingEvent} {outcome : BackupOutcome}
    (h : w.Early trace) (unpaired : w.credentials = none)
    (enabled : w.Enabled (.backup job env outcome)) :
    (w.next (.backup job env outcome)).Early (trace ++ [.backup job env outcome]) := by
  obtain ⟨-, hdevice, hauth, houtcome⟩ := enabled
  have hoffline : env.authenticated = false := by
    rw [← Bool.not_eq_true]
    exact fun h => hauth h unpaired
  have hnil : w.deviceId = Uuid.nil := by
    rw [PairingWorld.deviceId, unpaired]
    rfl
  rcases runBackup_unauthenticated w.machine job hoffline with heq | ⟨p, hp, heq⟩
  · rw [heq] at houtcome
    subst houtcome
    refine h.of_same ?_ (fun _ _ hev => by cases hev)
    change (w.machine.run (runBackup w.machine job env).2).device.state.outbox = _
    rw [heq]
    rfl
  · rw [heq] at houtcome
    subst houtcome
    obtain ⟨old, row, houtbox, hold, hrow⟩ := outbox_queueBackup w.machine job.gameId p env
    have hnext : (w.next (.backup job env .queued)).state.outbox = old ++ [row] := by
      change (w.machine.run (runBackup w.machine job env).2).device.state.outbox = _
      rw [heq]
      exact houtbox
    refine ⟨?_, ?_⟩
    · rw [hnext]
      intro r hr
      rcases List.mem_append.mp hr with hr | hr
      · exact h.nil r (hold r hr)
      · obtain rfl := List.mem_singleton.mp hr
        exact ⟨_, hrow, (packBackup_deviceId hp).trans (hdevice.trans hnil)⟩
    · rw [hnext]
      refine iff_of_false (by simp) fun hnone => hnone job env ?_
      exact List.mem_append_right _ (List.mem_singleton_self _)

/-- **As long as the device is not paired**, its entries name the nil device, and there is
one as soon as a backup was queued. -/
theorem early_of_run {w₀ : PairingWorld} {trace : List PairingEvent} (new : w₀.New)
    (run : Run PairingStep w₀ trace w) (unpaired : w.credentials = none) : w.Early trace := by
  refine run.invariant_trace (I := fun trace w => w.credentials = none → w.Early trace) ?_
    (fun _ => ⟨by simp [new.outbox], by simp [new.outbox]⟩) unpaired
  rintro trace w ev w' ih ⟨enabled, rfl⟩ unpaired
  cases ev with
  | refresh enrichIds library => exact (ih unpaired).of_same rfl fun _ _ h => by cases h
  | backup job env outcome => exact (ih unpaired).backup unpaired enabled
  | retry now env => exact absurd unpaired enabled
  | service ev => exact (ih unpaired).of_same rfl fun _ _ h => by cases h
  | pair account device name os tokenHash now =>
      -- a pairing that succeeds ends this phase
      cases hpair : w.server.pair account device name os tokenHash now with
      | mk server reply =>
          cases reply with
          | ok auth => simp [PairingWorld.next, hpair] at unpaired
          | error e =>
              simp only [PairingWorld.next, hpair] at unpaired ⊢
              exact (ih unpaired).of_same rfl fun _ _ h => by cases h

end Unpaired

/-- **Exactly when the backups queued before pairing are accepted.**  A device that was never
paired backs up games of its catalog, is paired, and refreshes its catalog with the server's
ids; whatever happens then, and while the archives are still in the cache, every entry it had
queued is accepted on submission if and only if it had queued none. -/
theorem early_backups_accepted_iff {w₀ w₁ w₂ w : PairingWorld}
    {before after : List PairingEvent} {account : AccountId} {device : DeviceId} {name : String}
    {os : Os} {tokenHash : String} {now : Timestamp} {library : Library} (new : w₀.New)
    (first : Run PairingStep w₀ before w₁) (unpaired : w₁.credentials = none)
    (paired : PairingStep w₁ (.pair account device name os tokenHash now) w₂)
    (_succeeded : w₂.credentials ≠ none)
    (rest : Run PairingStep w₂ (.refresh true library :: after) w)
    (_cached : ∀ row ∈ w₁.state.outbox, ∀ p, row.payload = some p → w.cache p.blobHash ≠ none)
    (draws : OutboxPayload → Draw) :
    (∀ row ∈ w₁.state.outbox, ∀ p, row.payload = some p →
      (w.submit p (draws p)).isSome = true) ↔
    ∀ job env, .backup job env .queued ∉ before := by
  have early := early_of_run new first unpaired
  rw [← early.empty_iff]
  constructor
  · intro haccepted
    -- an entry would name the nil device, which the server never has
    rw [List.eq_nil_iff_forall_not_mem]
    intro row hrow
    obtain ⟨p, hp, hnil⟩ := early.nil row hrow
    have hdevices := nil_free_run (first.trans ((Run.single paired).trans rest)) new.devices
    have hnone : w.submit p (draws p) = none := by
      refine submit_unknown_device fun d hd => ?_
      rw [hnil]
      exact hdevices d hd
    have hsome := haccepted row hrow p hp
    rw [hnone] at hsome
    cases hsome
  · intro hempty
    rw [hempty]
    simp

end General

section Example

local instance pairingDigest : Blake3 := plainDigest

/-- A device at its first start, and a server with an account that has no games. -/
def unpairedDevice : PairingWorld where
  credentials := none
  state :=
    { snapshots := fun _ => none, outbox := [], diffcount := fun _ => none,
      unconfirmed := fun _ => false, lastBackupAt := none }
  cache := fun _ => none
  ids := fun _ => none
  games := []
  server := newAccountServer

/-- One installed game; `id` is drawn for it by whoever registers it. -/
def oneGameLibrary (id : GameId) : Library where
  steam := [(⟨"Hollow Knight", .manifest, some 367520, []⟩, { undisturbed id with localId := id })]
  others := []

/-- The device finds its game under id 41 and backs it up. -/
def backupUnpaired : List PairingEvent :=
  [.refresh true (oneGameLibrary 41),
    .backup { exampleJob with gameId := 41 }
      { exampleBackup (oneByteSave 1) false .none 1 with deviceId := Uuid.nil } .queued]

/-- A device that has backed up without being paired. -/
def unpairedAfterBackup : PairingWorld :=
  backupUnpaired.foldl PairingWorld.next unpairedDevice

/-- It is paired as device 23, and the game gets the id 42 from the server. -/
def pairedAndRefreshed : PairingWorld :=
  (unpairedAfterBackup.next (.pair 1 23 "laptop" .linux "" 2)).next
    (.refresh true (oneGameLibrary 42))

theorem unpairedDevice_new : unpairedDevice.New :=
  ⟨rfl, rfl, by decide⟩

theorem run_backupUnpaired : Run PairingStep unpairedDevice backupUnpaired unpairedAfterBackup :=
  Run.of_enabled ⟨trivial, ⟨⟨_, List.mem_singleton_self _, rfl⟩, rfl, by decide, rfl⟩, trivial⟩

theorem step_pair :
    PairingStep unpairedAfterBackup (.pair 1 23 "laptop" .linux "" 2)
      (unpairedAfterBackup.next (.pair 1 23 "laptop" .linux "" 2)) :=
  ⟨show (23 : DeviceId) ≠ Uuid.nil by decide, rfl⟩

theorem run_refresh :
    Run PairingStep (unpairedAfterBackup.next (.pair 1 23 "laptop" .linux "" 2))
      [.refresh true (oneGameLibrary 42)] pairedAndRefreshed :=
  Run.single ⟨trivial, rfl⟩

/-- In this run not every entry is accepted. -/
theorem unpaired_backup_stuck :
    ¬ ∀ row ∈ unpairedAfterBackup.state.outbox, ∀ p, row.payload = some p →
      (pairedAndRefreshed.submit p ⟨50, 3⟩).isSome = true := by
  intro haccepted
  have hnone := (early_backups_accepted_iff unpairedDevice_new run_backupUnpaired rfl
    step_pair (by decide) run_refresh (by decide) fun _ => ⟨50, 3⟩).mp haccepted
  exact hnone _ _ (List.mem_cons_of_mem _ (List.mem_singleton_self _))

/-- **The queued backup of an unpaired device is never accepted**: the device is paired, its
catalog has the server's id, the archive is still there, and the server refuses the entry. -/
theorem unpaired_backup_refused :
    Run PairingStep unpairedDevice (backupUnpaired ++
      [.pair 1 23 "laptop" .linux "" 2, .refresh true (oneGameLibrary 42)]) pairedAndRefreshed ∧
    ∃ row ∈ pairedAndRefreshed.state.outbox, ∃ p, row.payload = some p ∧
      (pairedAndRefreshed.cache p.blobHash).isSome = true ∧
      pairedAndRefreshed.submit p ⟨50, 3⟩ = none := by
  refine ⟨run_backupUnpaired.trans ((Run.single step_pair).trans run_refresh), ?_⟩
  exact ⟨_, List.mem_singleton_self _, _, rfl, rfl, rfl⟩

end Example

end Savr
