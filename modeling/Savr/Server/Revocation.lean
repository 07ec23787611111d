import Savr.Lib.Interleaving
import Savr.Server.Accounts
import Savr.Server.Hub

/-!
# Revoking a device

`delete_device` of `savr-server/src/api.rs` against everything else that runs at the same
time: the access check and the upgrade of new sockets, the loop of the open ones
(`savr-server/src/ws.rs`), refreshes, and the calls of any account.  Each handler is cut at
its database statements and at its calls of the hub.

A socket registers in two places, and neither is atomic with the check before it; so the hub
may get an entry for the device after `drop_device`.  It is its own socket that removes it:
whatever is registered belongs to a socket that has not left its loop yet.

## Main results

* `Db.Revoked.perform`, `Db.Revoked.createDevice` — a revoked device stays revoked.
* `registered_of_run` — an entry of the hub belongs to a socket in its loop.
* `revoked_device_cut_off` — what a revocation guarantees, for every schedule.
-/

namespace Savr

open LabelledRun Interleaving

namespace Db

/-- True iff the device exists on this account and is not revoked. -/
def deviceActive (db : Db) (account : AccountId) (device : DeviceId) : Bool :=
  match db.devices.find? fun d => d.id = device ∧ d.accountId = account with
  | some d => !d.revoked
  | none => false

/-- `(account, token_hash, revoked)` for a device. -/
def deviceCredentials (db : Db) (device : DeviceId) : Option (AccountId × String × Bool) :=
  (db.devices.find? fun d => d.id = device).map fun d => (d.accountId, d.tokenHash, d.revoked)

/-- The device is there, and revoked. -/
structure Revoked (db : Db) (account : AccountId) (device : DeviceId) : Prop where
  present : ∃ d ∈ db.devices, d.id = device
  revoked : ∀ d ∈ db.devices, d.id = device → d.accountId = account ∧ d.revoked = true

/-- The primary key of `devices`. -/
def DeviceKeys (db : Db) : Prop := (db.devices.map DeviceRow.id).Nodup

end Db

/-! ## The handlers -/

/-- What the loop of a socket wakes up for. It looks the device up at a heartbeat and at a
`Hello`, and at nothing else. -/
inductive SocketWake
  | heartbeat (pingOk : Bool)
  | hello
  /-- A message of the hub that is sent on, a `Ping`, a `Subscribe`, a malformed frame. -/
  | other
  /-- The peer is gone. -/
  | ends
  deriving DecidableEq, Repr

/-- The loop asks the database whether the device is active. -/
def SocketWake.checks : SocketWake → Bool
  | heartbeat _ | hello => true
  | _ => false

/-- Where a socket is. The upgrade lies between the check of the token and the registration,
so a device may be revoked in between. -/
inductive SocketPhase
  /-- Its request is about to be checked; the token names the account and the device. -/
  | connecting
  | rejected
  /-- The access check has passed. -/
  | admitted
  /-- The connection is upgraded. -/
  | opened
  /-- In the loop. -/
  | serving
  /-- A `Hello` has passed its activity check. -/
  | greeted
  /-- It has registered again. -/
  | replaying
  /-- The loop is left. -/
  | closing
  | closed
  deriving DecidableEq, Repr

/-- The access check has passed, and the socket has not ended. -/
def SocketPhase.admittedYet : SocketPhase → Bool
  | admitted | opened | serving | greeted | replaying | closing => true
  | _ => false

/-- The socket has registered, and not deregistered. -/
def SocketPhase.registered : SocketPhase → Bool
  | serving | greeted | replaying | closing => true
  | _ => false

/-- Where a refresh is. -/
inductive RefreshPhase
  | credentials
  | verified
  | minted
  | refused
  deriving DecidableEq, Repr

/-- Where a revocation is. -/
inductive DeletePhase
  | revoke
  | drop
  | deleted
  | notFound
  | failed
  deriving DecidableEq, Repr

/-- A handler, and where it is. Those that touch neither devices nor the hub are one kind. -/
inductive PresenceHandler
  | socket (s : Socket) (phase : SocketPhase)
  | refresh (device : DeviceId) (phase : RefreshPhase)
  | delete (account : AccountId) (device : DeviceId) (phase : DeletePhase)
  /-- Any other call of an account. -/
  | call (account : AccountId) (c : Db.AccountCall) (done : Bool)
  /-- `POST /api/v1/devices/pair`, for a code of this account. -/
  | pair (account : AccountId) (device : DeviceId) (name : String) (os : Os)
      (tokenHash : String) (done : Bool)

/-- What the environment decides about a step: whether a statement succeeds, and what a
socket wakes up for. -/
structure PresenceDraw where
  /-- The statement, or the upgrade, succeeds. -/
  ok : Bool
  event : SocketWake
  /-- `verify_secret` of the refresh secret. -/
  secretOk : Bool
  now : Timestamp
  deriving DecidableEq, Repr

/-- What the handlers share. -/
structure Presence where
  db : Db
  hub : Hub

namespace PresenceHandler

/-- A handler starts at its first step. -/
def Init : PresenceHandler → Prop
  | socket _ phase => phase = .connecting
  | refresh _ phase => phase = .credentials
  | delete _ _ phase => phase = .revoke
  | call _ _ done => done = false
  | pair _ _ _ _ _ done => done = false

instance : DecidablePred Init
  | socket _ phase => inferInstanceAs (Decidable (phase = .connecting))
  | refresh _ phase => inferInstanceAs (Decidable (phase = .credentials))
  | delete _ _ phase => inferInstanceAs (Decidable (phase = .revoke))
  | call _ _ done => inferInstanceAs (Decidable (done = false))
  | pair _ _ _ _ _ done => inferInstanceAs (Decidable (done = false))

/-- The handler has not ended. -/
def running : PresenceHandler → Bool
  | socket _ phase => phase ≠ .rejected ∧ phase ≠ .closed
  | refresh _ phase => phase ≠ .minted ∧ phase ≠ .refused
  | delete _ _ phase => phase = .revoke ∨ phase = .drop
  | call _ _ done => !done
  | pair _ _ _ _ _ done => !done

/-- One step of the `Authed` extractor, of the upgrade and of `handle_socket`. A lookup that
fails counts as a revoked device. -/
def execSocket (p : Presence) (s : Socket) (draw : PresenceDraw) :
    SocketPhase → Presence × SocketPhase
  | .connecting =>
      (p, if draw.ok ∧ p.db.deviceActive s.account s.device then .admitted else .rejected)
  | .admitted => (p, if draw.ok then .opened else .closed)
  | .opened => ({ p with hub := p.hub.register s.account s.device s.id }, .serving)
  | .serving =>
      let active : Bool := draw.ok ∧ p.db.deviceActive s.account s.device
      match draw.event with
      | .heartbeat pingOk => (p, if active ∧ pingOk then .serving else .closing)
      | .hello => (p, if active then .greeted else .closing)
      | .other => (p, .serving)
      | .ends => (p, .closing)
  | .greeted => ({ p with hub := p.hub.register s.account s.device s.id }, .replaying)
  | .replaying =>
      ({ p with db := if draw.ok then p.db.touchDevice s.account s.device draw.now else p.db },
        .serving)
  | .closing => ({ p with hub := p.hub.deregister s.account s.device }, .closed)
  | phase => (p, phase)

/-- One step of `refresh`. A device that is revoked after the lookup still gets its token,
which then opens nothing. -/
def execRefresh (p : Presence) (device : DeviceId) (draw : PresenceDraw) :
    RefreshPhase → RefreshPhase
  | .credentials =>
      match if draw.ok then p.db.deviceCredentials device else none with
      | some (_, _, revoked) => if revoked ∨ ¬ draw.secretOk then .refused else .verified
      | none => .refused
  | .verified => .minted
  | phase => phase

/-- One step of `delete_device`: the row is marked first, and then the device is taken out of
the hub. -/
def execDelete (p : Presence) (account : AccountId) (device : DeviceId) (draw : PresenceDraw) :
    DeletePhase → Presence × DeletePhase
  | .revoke =>
      if draw.ok then
        ({ p with db := (p.db.revokeDevice account device).1 },
          bif (p.db.revokeDevice account device).2 then .drop else .notFound)
      else (p, .failed)
  | .drop => ({ p with hub := p.hub.deregister account device }, .deleted)
  | phase => (p, phase)

/-- One step of a handler, in the phase it is in. Calls of an account other than these run as
a whole. -/
def exec (p : Presence) (draw : PresenceDraw) : PresenceHandler → Presence × PresenceHandler
  | socket s phase => (execSocket p s draw phase).map id (socket s)
  | refresh device phase => (p, refresh device (execRefresh p device draw phase))
  | delete account device phase =>
      (execDelete p account device draw phase).map id (delete account device)
  | call account c _ =>
      ({ p with db := if draw.ok then p.db.perform account c else p.db }, call account c true)
  | pair account device name os tokenHash _ =>
      match if draw.ok then p.db.createDevice account device name os tokenHash draw.now
        else .error (.internal "") with
      | .ok db => ({ p with db }, pair account device name os tokenHash true)
      | .error _ => (p, pair account device name os tokenHash true)

end PresenceHandler

/-- Any number of handlers. -/
def presenceProgram : Program Presence ℕ PresenceHandler PresenceDraw where
  Init := PresenceHandler.Init
  Ready _ _ h _ := h.running = true
  exec p _ h draw := h.exec p draw

instance : DecidablePred presenceProgram.Init :=
  inferInstanceAs (DecidablePred PresenceHandler.Init)

instance : ∀ p i h draw, Decidable (presenceProgram.Ready p i h draw) :=
  fun _ _ h _ => inferInstanceAs (Decidable (h.running = true))

/-- What the handlers share, and the handlers. -/
abbrev PresenceWorld := World Presence ℕ PresenceHandler

/-- One step of some handler. -/
def PresenceStep : PresenceWorld → Event ℕ PresenceHandler PresenceDraw → PresenceWorld → Prop :=
  presenceProgram.Step

/-- The server has just started. -/
structure PresenceWorld.New (w : PresenceWorld) : Prop where
  keys : w.shared.db.DeviceKeys
  hub : w.shared.hub = Hub.new
  procs : ∀ i, w.procs i = none

/-! ## A revoked device stays revoked -/

namespace Db

variable {db db' : Db} {account account' : AccountId} {device device' : DeviceId}

/-- A revoked device is not active. -/
theorem Revoked.inactive (h : db.Revoked account device) :
    db.deviceActive account device = false := by
  unfold deviceActive
  cases hfind : db.devices.find? fun d => d.id = device ∧ d.accountId = account with
  | none => rfl
  | some d =>
      have hid : d.id = device ∧ d.accountId = account := by simpa using List.find?_some hfind
      simp [(h.revoked d (List.mem_of_find?_eq_some hfind) hid.1).2]

/-- The credentials of a revoked device say so. -/
theorem Revoked.credentials (h : db.Revoked account device) :
    ∃ owner hash, db.deviceCredentials device = some (owner, hash, true) := by
  obtain ⟨d, hd, hid⟩ := h.present
  cases hfind : db.devices.find? fun d => d.id = device with
  | none => exact absurd hid (by simpa using List.find?_eq_none.mp hfind d hd)
  | some d' =>
      have hid' : d'.id = device := by simpa using List.find?_some hfind
      refine ⟨d'.accountId, d'.tokenHash, ?_⟩
      rw [deviceCredentials, hfind, Option.map_some,
        (h.revoked d' (List.mem_of_find?_eq_some hfind) hid').2]

/-- An update of a row that keeps what identifies it, and does not take a revocation back. -/
structure KeepsRevocation (change : DeviceRow → DeviceRow) : Prop where
  id : ∀ d, (change d).id = d.id
  accountId : ∀ d, (change d).accountId = d.accountId
  revoked : ∀ d, d.revoked = true → (change d).revoked = true

/-- A change of a device that does not take a revocation back keeps all of them. -/
theorem KeepsRevocation.updateDeviceRow {change : DeviceRow → DeviceRow}
    (h : KeepsRevocation change) (account : AccountId) (device : DeviceId) :
    KeepsRevocation (Db.updateDeviceRow account device change) := by
  constructor <;> intro d <;> unfold Db.updateDeviceRow <;> split_ifs
  · exact h.id d
  · rfl
  · exact h.accountId d
  · rfl
  · exact h.revoked d
  · exact fun hd => hd

/-- A revoked device is still revoked after such a change. -/
theorem Revoked.map {change : DeviceRow → DeviceRow} (hkeeps : KeepsRevocation change)
    (hdevices : db'.devices = db.devices.map change) (h : db.Revoked account device) :
    db'.Revoked account device := by
  constructor
  · obtain ⟨d, hd, hid⟩ := h.present
    exact ⟨change d, hdevices ▸ List.mem_map_of_mem hd, (hkeeps.id d).trans hid⟩
  · intro d' hd' hid'
    rw [hdevices] at hd'
    obtain ⟨d, hd, rfl⟩ := List.mem_map.mp hd'
    obtain ⟨hacc, hrevoked⟩ := h.revoked d hd ((hkeeps.id d).symm.trans hid')
    exact ⟨(hkeeps.accountId d).trans hacc, hkeeps.revoked d hrevoked⟩

theorem DeviceKeys.map {change : DeviceRow → DeviceRow} (hkeeps : KeepsRevocation change)
    (hdevices : db'.devices = db.devices.map change) (h : db.DeviceKeys) : db'.DeviceKeys := by
  have hids : db'.devices.map DeviceRow.id = db.devices.map DeviceRow.id := by
    rw [hdevices, List.map_map]
    exact List.map_congr_left fun d _ => hkeeps.id d
  rw [DeviceKeys, hids]
  exact h

theorem keepsRevocation_id : KeepsRevocation fun d => d :=
  ⟨fun _ => rfl, fun _ => rfl, fun _ h => h⟩

theorem touchDevice_devices (now : Timestamp) : ∃ change, KeepsRevocation change ∧
    (db.touchDevice account device now).devices = db.devices.map change := by
  refine ⟨updateDeviceRow account device fun d => { d with lastSeen := some now },
    KeepsRevocation.updateDeviceRow ?_ account device, rfl⟩
  exact ⟨fun _ => rfl, fun _ => rfl, fun _ h => h⟩

theorem revokeDevice_devices : ∃ change, KeepsRevocation change ∧
    (db.revokeDevice account device).1.devices = db.devices.map change := by
  refine ⟨updateDeviceRow account device fun d => { d with revoked := true },
    KeepsRevocation.updateDeviceRow ?_ account device, rfl⟩
  exact ⟨fun _ => rfl, fun _ => rfl, fun _ _ => rfl⟩

/-- What a call does to the devices. -/
theorem perform_devices (c : AccountCall) : ∃ change, KeepsRevocation change ∧
    (db.perform account c).devices = db.devices.map change := by
  have hsame : ∀ {db' : Db}, db'.devices = db.devices → ∃ change, KeepsRevocation change ∧
      db'.devices = db.devices.map change := fun h =>
    ⟨_, keepsRevocation_id, h.trans (List.map_id' _).symm⟩
  cases c with
  | ensureGame title steamAppid id =>
      refine hsame ?_
      rcases db.ensureGame_cases account title steamAppid id with
        ⟨row, -, heq⟩ | ⟨-, ⟨row, -, heq⟩ | ⟨-, ⟨e, heq⟩ | ⟨-, heq⟩⟩⟩ <;>
        rw [perform, heq]
  | createVersion gameId req id now =>
      refine hsame ?_
      rw [perform]
      rcases createVersion_eq db account gameId req id now with heq | ⟨-, heq⟩ <;> rw [heq]
      rfl
  | resolveConflict gameId winner keepBoth id now =>
      refine hsame ?_
      rw [perform]
      rcases resolveConflict_eq db account gameId winner keepBoth id now with heq | ⟨cur, heq⟩ <;>
        rw [heq]
      rfl
  | putConfig incoming seed draw =>
      refine hsame ?_
      rw [perform, (configOnly_putConfig incoming seed draw).rest]
  | revokeDevice device => exact revokeDevice_devices
  | touchDevice device now => exact touchDevice_devices now

/-- A device is created under a new id, behind the others. -/
theorem createDevice_devices {name : String} {os : Os} {tokenHash : String} {now : Timestamp}
    (h : db.createDevice account' device' name os tokenHash now = .ok db') :
    (∀ d ∈ db.devices, d.id ≠ device') ∧
      ∃ row : DeviceRow, row.id = device' ∧ db'.devices = db.devices ++ [row] := by
  unfold createDevice at h
  split_ifs at h with hfresh haccount
  obtain rfl := Except.ok.inj h
  refine ⟨fun d hd hid => hfresh ?_, _, rfl, rfl⟩
  exact List.any_eq_true.mpr ⟨d, hd, by simpa using hid⟩

/-- Pairing another device does not bring a revoked one back. -/
theorem Revoked.createDevice {name : String} {os : Os} {tokenHash : String} {now : Timestamp}
    (hrevoked : db.Revoked account device)
    (h : db.createDevice account' device' name os tokenHash now = .ok db') :
    db'.Revoked account device := by
  obtain ⟨hfresh, row, hrow, hdevices⟩ := createDevice_devices h
  obtain ⟨d, hd, hid⟩ := hrevoked.present
  constructor
  · exact ⟨d, hdevices ▸ List.mem_append_left _ hd, hid⟩
  · intro d' hd' hid'
    rw [hdevices] at hd'
    rcases List.mem_append.mp hd' with hd' | hd'
    · exact hrevoked.revoked d' hd' hid'
    · -- the id of the new device is not taken
      obtain rfl := List.mem_singleton.mp hd'
      exact absurd (hid.trans (hid'.symm.trans hrow)) (hfresh d hd)

/-- So the ids stay distinct. -/
theorem DeviceKeys.createDevice {name : String} {os : Os} {tokenHash : String} {now : Timestamp}
    (keys : db.DeviceKeys)
    (h : db.createDevice account' device' name os tokenHash now = .ok db') : db'.DeviceKeys := by
  obtain ⟨hfresh, row, hrow, hdevices⟩ := createDevice_devices h
  rw [DeviceKeys, hdevices, List.map_append, List.nodup_append]
  refine ⟨keys, by simp, ?_⟩
  rintro a ha b hb rfl
  obtain ⟨d, hd, rfl⟩ := List.mem_map.mp ha
  obtain hid : d.id = row.id := by simpa using hb
  exact hfresh d hd (hid.trans hrow)

/-- A revocation that finds its device revokes it. -/
theorem revoked_of_revokeDevice (keys : db.DeviceKeys)
    (h : (db.revokeDevice account device).2 = true) :
    (db.revokeDevice account device).1.Revoked account device := by
  have hcount : db.devices.countP (fun d => d.id = device ∧ d.accountId = account) = 1 :=
    of_decide_eq_true h
  obtain ⟨d, hd, hcond⟩ := List.countP_pos_iff.mp (Nat.lt_of_lt_of_eq Nat.one_pos hcount.symm)
  obtain ⟨hid, hacc⟩ : d.id = device ∧ d.accountId = account := by simpa using hcond
  have hrow : ∀ e ∈ (db.revokeDevice account device).1.devices, e.id = device →
      e.accountId = account ∧ e.revoked = true := by
    intro e he heid
    obtain ⟨e', he', rfl⟩ := List.mem_map.mp he
    rw [updateDeviceRow] at heid ⊢
    split_ifs at heid ⊢ with hmatch
    · exact ⟨hmatch.2, rfl⟩
    · obtain rfl := List.inj_on_of_nodup_map keys he' hd (heid.trans hid.symm)
      exact absurd ⟨hid, hacc⟩ hmatch
  refine ⟨⟨updateDeviceRow account device (fun d => { d with revoked := true }) d,
    List.mem_map_of_mem hd, ?_⟩, hrow⟩
  rw [updateDeviceRow, if_pos ⟨hid, hacc⟩]
  exact hid

end Db

/-! ## One step -/

namespace PresenceHandler

variable {p : Presence} {draw : PresenceDraw} {account : AccountId} {device : DeviceId}
  {s : Socket} {phase : SocketPhase}

/-- No step takes a revocation back, or a primary key. -/
theorem exec_db (h : PresenceHandler) (account : AccountId) (device : DeviceId) :
    (p.db.Revoked account device → (h.exec p draw).1.db.Revoked account device) ∧
      (p.db.DeviceKeys → (h.exec p draw).1.db.DeviceKeys) := by
  have hmap : ∀ {db' : Db}, (∃ change, Db.KeepsRevocation change ∧
      db'.devices = p.db.devices.map change) →
      (p.db.Revoked account device → db'.Revoked account device) ∧
        (p.db.DeviceKeys → db'.DeviceKeys) := by
    rintro db' ⟨change, hkeeps, hdevices⟩
    exact ⟨.map hkeeps hdevices, .map hkeeps hdevices⟩
  cases h with
  | socket s phase =>
      cases phase with
      | replaying =>
          show (_ → (if draw.ok then _ else _ : Db).Revoked account device) ∧
            (_ → (if draw.ok then _ else _ : Db).DeviceKeys)
          split_ifs
          · exact hmap (Db.touchDevice_devices draw.now)
          · exact ⟨id, id⟩
      | serving =>
          have hsame : (execSocket p s draw .serving).1 = p := by
            rw [execSocket]
            cases draw.event <;> rfl
          show (_ → (execSocket p s draw .serving).1.db.Revoked account device) ∧
            (_ → (execSocket p s draw .serving).1.db.DeviceKeys)
          rw [hsame]
          exact ⟨id, id⟩
      | connecting | rejected | admitted | opened | greeted | closing | closed => exact ⟨id, id⟩
  | refresh device' phase => exact ⟨id, id⟩
  | delete account' device' phase =>
      cases phase with
      | revoke =>
          show (_ → (execDelete p account' device' draw .revoke).1.db.Revoked account device) ∧
            (_ → (execDelete p account' device' draw .revoke).1.db.DeviceKeys)
          rw [execDelete]
          split_ifs
          · exact hmap Db.revokeDevice_devices
          · exact ⟨id, id⟩
      | drop | deleted | notFound | failed => exact ⟨id, id⟩
  | call account' c done =>
      show (_ → (if draw.ok then _ else _ : Db).Revoked account device) ∧
        (_ → (if draw.ok then _ else _ : Db).DeviceKeys)
      split_ifs
      · exact hmap (Db.perform_devices c)
      · exact ⟨id, id⟩
  | pair account' device' name os tokenHash done =>
      rw [exec]
      split
      · rename_i db hok
        split_ifs at hok
        exact ⟨fun hrevoked => hrevoked.createDevice hok, fun keys => keys.createDevice hok⟩
      · exact ⟨id, id⟩

/-- What a step does to the entry of a device: nothing, or a socket of the device registers,
or the entry is removed — the latter at the latest when a socket of the device leaves. -/
theorem exec_hub (h : PresenceHandler) (account : AccountId) (device : DeviceId) :
    (h.exec p draw).1.hub.sender account device = none ∨
    (∃ s phase, (h.exec p draw).2 = socket s phase ∧ s.account = account ∧ s.device = device ∧
      phase.registered = true) ∨
    ((h.exec p draw).1.hub.sender account device = p.hub.sender account device ∧
      ∀ s, h = socket s .closing → (s.account, s.device) ≠ (account, device)) := by
  have hregister : ∀ (s : Socket) (phase : SocketPhase), phase.registered = true →
      (p.hub.register s.account s.device s.id).sender account device =
        p.hub.sender account device ∨ ∃ s' phase', socket s phase = socket s' phase' ∧
          s'.account = account ∧ s'.device = device ∧ phase'.registered = true := by
    intro s phase hphase
    by_cases hkey : (s.account, s.device) = (account, device)
    · obtain ⟨hacc, hdev⟩ := Prod.mk.inj hkey
      exact .inr ⟨s, phase, rfl, hacc, hdev, hphase⟩
    · exact .inl (Hub.sender_register_of_ne fun heq => hkey heq.symm)
  have hderegister : ∀ (account' : AccountId) (device' : DeviceId),
      (p.hub.deregister account' device').sender account device = none ∨
        (p.hub.deregister account' device').sender account device =
          p.hub.sender account device ∧ (account', device') ≠ (account, device) := by
    intro account' device'
    by_cases hkey : (account', device') = (account, device)
    · obtain ⟨rfl, rfl⟩ := Prod.mk.inj hkey
      exact .inl Hub.sender_deregister
    · exact .inr ⟨Hub.sender_deregister_of_ne fun heq => hkey heq.symm, hkey⟩
  cases h with
  | socket s phase =>
      cases phase with
      | opened =>
          rcases hregister s .serving rfl with hsame | hnew
          · exact .inr (.inr ⟨hsame, fun _ heq => by cases heq⟩)
          · exact .inr (.inl hnew)
      | greeted =>
          rcases hregister s .replaying rfl with hsame | hnew
          · exact .inr (.inr ⟨hsame, fun _ heq => by cases heq⟩)
          · exact .inr (.inl hnew)
      | closing =>
          rcases hderegister s.account s.device with hnone | ⟨hsame, hne⟩
          · exact .inl hnone
          · refine .inr (.inr ⟨hsame, fun s' heq => ?_⟩)
            cases heq
            exact hne
      | serving =>
          refine .inr (.inr ⟨?_, fun _ heq => by cases heq⟩)
          show (execSocket p s draw .serving).1.hub.sender account device = _
          rw [execSocket]
          cases draw.event <;> rfl
      | connecting | rejected | admitted | replaying | closed =>
          exact .inr (.inr ⟨rfl, fun _ heq => by cases heq⟩)
  | refresh device' phase => exact .inr (.inr ⟨rfl, fun _ heq => by cases heq⟩)
  | delete account' device' phase =>
      cases phase with
      | revoke =>
          refine .inr (.inr ⟨?_, fun _ heq => by cases heq⟩)
          show (execDelete p account' device' draw .revoke).1.hub.sender account device = _
          rw [execDelete]
          split_ifs <;> rfl
      | drop =>
          rcases hderegister account' device' with hnone | ⟨hsame, -⟩
          · exact .inl hnone
          · exact .inr (.inr ⟨hsame, fun _ heq => by cases heq⟩)
      | deleted | notFound | failed => exact .inr (.inr ⟨rfl, fun _ heq => by cases heq⟩)
  | call account' c done => exact .inr (.inr ⟨rfl, fun _ heq => by cases heq⟩)
  | pair account' device' name os tokenHash done =>
      refine .inr (.inr ⟨?_, fun _ heq => by cases heq⟩)
      rw [exec]
      split <;> rfl

/-- The phases of a socket: it stays registered until it leaves its loop, it is admitted
only by the access check, and once it leaves its loop it ends. -/
theorem exec_socket (p : Presence) (draw : PresenceDraw) (s : Socket) (phase : SocketPhase) :
    ∃ phase',
    ((socket s phase).exec p draw).2 = socket s phase' ∧
      (phase.registered = true → phase'.registered = true ∨ phase = .closing) ∧
      (phase'.admittedYet = true → phase.admittedYet = true ∨
        phase = .connecting ∧ p.db.deviceActive s.account s.device = true) ∧
      (phase = .closing → phase' = .closed) := by
  refine ⟨(execSocket p s draw phase).2, rfl, ?_⟩
  cases phase with
  | connecting =>
      refine ⟨fun h => (Bool.false_ne_true h).elim, fun h => .inr ⟨rfl, ?_⟩, nofun⟩
      by_contra hactive
      rw [execSocket, if_neg fun hcond => hactive hcond.2] at h
      exact Bool.false_ne_true h
  | admitted => exact ⟨nofun, fun _ => .inl rfl, nofun⟩
  | opened | greeted | replaying => exact ⟨fun _ => .inl rfl, fun _ => .inl rfl, nofun⟩
  | serving =>
      refine ⟨fun _ => .inl ?_, fun _ => .inl rfl, nofun⟩
      show (execSocket p s draw .serving).2.registered = true
      unfold execSocket
      cases draw.event with
      | heartbeat pingOk => dsimp only; split_ifs <;> rfl
      | hello => dsimp only; split_ifs <;> rfl
      | other | ends => rfl
  | closing => exact ⟨fun _ => .inr rfl, fun _ => .inl rfl, fun _ => rfl⟩
  | rejected | closed => exact ⟨nofun, nofun, nofun⟩

end PresenceHandler

/-! ## Runs -/

section Runs

variable {w₀ w₁ w₂ w w' : PresenceWorld} {ev : Event ℕ PresenceHandler PresenceDraw}
  {trace : List (Event ℕ PresenceHandler PresenceDraw)} {i : ℕ} {s : Socket}
  {account : AccountId} {device : DeviceId}

/-- A socket is in this phase. -/
def PresenceWorld.SocketAt (w : PresenceWorld) (i : ℕ) (s : Socket) (phase : SocketPhase) :
    Prop :=
  w.procs i = some (.socket s phase)

/-- Where a socket is after a step: where it was, at its start, or where its own step leads. -/
theorem socketAt_cases {phase : SocketPhase} (h : PresenceStep w ev w')
    (hsocket : w'.SocketAt i s phase) :
    w.SocketAt i s phase ∨ (w.procs i = none ∧ phase = .connecting) ∨
      ∃ draw phase₀, ev = .exec i draw ∧ w.SocketAt i s phase₀ ∧
        (phase₀.registered = true → phase.registered = true ∨ phase₀ = .closing) ∧
        (phase.admittedYet = true → phase₀.admittedYet = true ∨
          phase₀ = .connecting ∧ w.shared.db.deviceActive s.account s.device = true) ∧
        (phase₀ = .closing → phase = .closed) := by
  rcases h.procs_cases hsocket with hp | ⟨-, hinit, hnone⟩ | ⟨draw, p, hev, hp, -, hexec⟩
  · exact .inl hp
  · exact .inr (.inl ⟨hnone, hinit⟩)
  · refine .inr (.inr ?_)
    have hnext : (p.exec w.shared draw).2 = .socket s phase := congrArg Prod.snd hexec
    cases p with
    | socket s₀ phase₀ =>
        obtain ⟨phase', hphase', hregistered, hadmitted, hclosing⟩ :=
          PresenceHandler.exec_socket w.shared draw s₀ phase₀
        obtain ⟨rfl, rfl⟩ := PresenceHandler.socket.inj (hphase'.symm.trans hnext)
        exact ⟨draw, phase₀, hev, hp, hregistered, hadmitted, hclosing⟩
    | refresh device' phase' => cases hnext
    | delete account' device' phase' => cases hnext
    | call account' c done => cases hnext
    | pair account' device' name os tokenHash done =>
        rw [PresenceHandler.exec] at hnext
        split at hnext <;> cases hnext

/-- Every entry of the hub belongs to a socket in its loop. -/
def PresenceWorld.Registered (w : PresenceWorld) : Prop :=
  ∀ account device id, w.shared.hub.sender account device = some id →
    ∃ i s phase, w.SocketAt i s phase ∧ s.account = account ∧ s.device = device ∧
      phase.registered = true

/-- Only sockets whose loop runs are registered. -/
theorem PresenceWorld.Registered.step (h : w.Registered) (step : PresenceStep w ev w') :
    w'.Registered := by
  intro account device id hsender
  rcases step.cases with ⟨i, p, -, hnone, -, rfl⟩ | ⟨i, draw, p, -, hp, -, rfl⟩
  · obtain ⟨j, s, phase, hsocket, hrest⟩ := h account device id hsender
    have hij : j ≠ i := by
      rintro rfl
      cases hnone.symm.trans hsocket
    exact ⟨j, s, phase, (Function.update_of_ne hij _ _).trans hsocket, hrest⟩
  · rcases p.exec_hub account device with hnone | ⟨s, phase, hexec, hrest⟩ | ⟨hsame, hopen⟩
    · cases hnone.symm.trans hsender
    · refine ⟨i, s, phase, ?_, hrest⟩
      exact (Function.update_self i _ _).trans (congrArg some hexec)
    · obtain ⟨j, s, phase, hsocket, hacc, hdev, hphase⟩ :=
        h account device id (hsame.symm.trans hsender)
      by_cases hij : j = i
      · -- the socket makes a step, and it is not the last one
        subst hij
        obtain rfl := Option.some.inj (hp.symm.trans hsocket)
        obtain ⟨phase', hphase', hregistered, -⟩ :=
          PresenceHandler.exec_socket w.shared draw s phase
        refine ⟨j, s, phase', (Function.update_self j _ _).trans (congrArg some hphase'), hacc,
          hdev, (hregistered hphase).resolve_right ?_⟩
        rintro rfl
        exact hopen s rfl (by rw [hacc, hdev])
      · exact ⟨j, s, phase, (Function.update_of_ne hij _ _).trans hsocket, hacc, hdev, hphase⟩

/-- **Who keeps a device registered.**  In every run, an entry of the hub belongs to a socket
that has not left its loop. -/
theorem registered_of_run (run : Run PresenceStep w₀ trace w) (new : w₀.New) :
    w.Registered := by
  refine run.invariant (fun _ _ _ h step => h.step step) ?_
  intro account device id hsender
  rw [new.hub] at hsender
  cases hsender

theorem keys_of_run (run : Run PresenceStep w₀ trace w) (new : w₀.New) :
    w.shared.db.DeviceKeys := by
  refine run.invariant (I := fun w => w.shared.db.DeviceKeys) ?_ new.keys
  intro w ev w' h step
  rcases step.cases with ⟨i, p, -, -, -, rfl⟩ | ⟨i, draw, p, -, -, -, rfl⟩
  · exact h
  · exact (p.exec_db 0 0).2 h

/-- A revocation is for good. -/
theorem revoked_of_run (run : Run PresenceStep w trace w')
    (h : w.shared.db.Revoked account device) : w'.shared.db.Revoked account device := by
  refine run.invariant (I := fun w => w.shared.db.Revoked account device) ?_ h
  intro w ev w' h step
  rcases step.cases with ⟨i, p, -, -, -, rfl⟩ | ⟨i, draw, p, -, -, -, rfl⟩
  · exact h
  · exact (p.exec_db account device).1 h

/-- After the revocation no socket of the device is admitted. -/
theorem admitted_before (run : Run PresenceStep w₂ trace w)
    (hrevoked : w₂.shared.db.Revoked s.account s.device) {phase : SocketPhase}
    (hsocket : w.SocketAt i s phase) (hadmitted : phase.admittedYet = true) :
    ∃ phase₂, w₂.SocketAt i s phase₂ ∧ phase₂.admittedYet = true := by
  induction run generalizing phase with
  | nil => exact ⟨phase, hsocket, hadmitted⟩
  | snoc run step ih =>
      rcases socketAt_cases step hsocket with hearlier | ⟨-, rfl⟩ |
        ⟨draw, phase₀, -, hearlier, -, hcheck, -⟩
      · exact ih hearlier hadmitted
      · cases hadmitted
      · rcases hcheck hadmitted with hadmitted₀ | ⟨-, hactive⟩
        · exact ih hearlier hadmitted₀
        · rw [(revoked_of_run run hrevoked).inactive] at hactive
          cases hactive

/-- The socket has run one heartbeat: a tick in its loop, and the step after it, which leaves
the loop where the tick says so. -/
def PresenceWorld.RanHeartbeat (w₂ : PresenceWorld)
    (trace : List (Event ℕ PresenceHandler PresenceDraw)) (w : PresenceWorld) (i : ℕ)
    (s : Socket) : Prop :=
  ∃ pre mid post draw draw' x pingOk,
    trace = pre ++ .exec i draw :: (mid ++ .exec i draw' :: post) ∧
    Run PresenceStep w₂ pre x ∧ x.SocketAt i s .serving ∧ draw.event = .heartbeat pingOk ∧
    Run PresenceStep x (.exec i draw :: (mid ++ .exec i draw' :: post)) w

/-- A socket that leaves its loop can only close, and a closed one stays closed. -/
theorem socketAt_next {phase : SocketPhase} (h : PresenceStep w ev w')
    (hsocket : w.SocketAt i s phase) :
    ((∀ draw, ev ≠ .exec i draw) ∧ w'.SocketAt i s phase) ∨
      ∃ draw, ev = .exec i draw ∧ phase ≠ .closed ∧
        w'.SocketAt i s (PresenceHandler.execSocket w.shared s draw phase).2 := by
  rcases h.procs_next hsocket with hstays | ⟨draw, hev, hready, -, hnext⟩
  · exact .inl hstays
  · refine .inr ⟨draw, hev, ?_, hnext⟩
    rintro rfl
    exact Bool.false_ne_true hready

theorem closed_of_run (run : Run PresenceStep w trace w') (h : w.SocketAt i s .closed) :
    w'.SocketAt i s .closed := by
  refine run.invariant (I := fun w => w.SocketAt i s .closed) ?_ h
  intro w ev w' h step
  rcases socketAt_next step h with ⟨-, hstays⟩ | ⟨draw, -, hopen, -⟩
  · exact hstays
  · exact absurd rfl hopen

/-- A socket that leaves its loop goes on to close. -/
theorem leaving_of_run (run : Run PresenceStep w trace w') (h : w.SocketAt i s .closing) :
    w'.SocketAt i s .closing ∨ w'.SocketAt i s .closed := by
  refine run.invariant (I := fun w => w.SocketAt i s .closing ∨ w.SocketAt i s .closed) ?_
    (.inl h)
  rintro w ev w' (h | h) step
  · rcases socketAt_next step h with ⟨-, hstays⟩ | ⟨draw, -, -, hnext⟩
    · exact .inl hstays
    · exact .inr hnext
  · exact .inr (closed_of_run (Run.single step) h)

/-- **A heartbeat closes the socket of a revoked device.** -/
theorem closed_of_ranHeartbeat (hrevoked : w₂.shared.db.Revoked s.account s.device)
    (h : w₂.RanHeartbeat trace w i s) : w.SocketAt i s .closed := by
  obtain ⟨pre, mid, post, draw, draw', x, pingOk, -, hpre, hserving, hevent, hrest⟩ := h
  obtain ⟨y, htick, hrest⟩ : ∃ y, PresenceStep x (.exec i draw) y ∧
      Run PresenceStep y (mid ++ .exec i draw' :: post) w := by
    rw [← List.nil_append (Event.exec i draw :: _)] at hrest
    obtain ⟨x', y, hnil, htick, hrest⟩ := hrest.split
    obtain rfl := Run.nil_iff.mp hnil
    exact ⟨y, htick, hrest⟩
  have hclosing : y.SocketAt i s .closing := by
    rcases socketAt_next htick hserving with ⟨hother, -⟩ | ⟨draw₁, heq, -, hnext⟩
    · exact absurd rfl (hother draw)
    · cases heq
      simpa [PresenceHandler.execSocket, hevent, (revoked_of_run hpre hrevoked).inactive]
        using hnext
  obtain ⟨z, z', hmid, hleave, hpost⟩ := hrest.split
  refine closed_of_run hpost ?_
  rcases leaving_of_run hmid hclosing with hz | hz
  · rcases socketAt_next hleave hz with ⟨hother, -⟩ | ⟨draw₁, -, -, hnext⟩
    · exact absurd rfl (hother draw')
    · exact hnext
  · exact closed_of_run (Run.single hleave) hz

/-- The first statement of a revocation marks the row. -/
theorem revoked_of_commit {commit : ℕ} {draw : PresenceDraw} (keys : w₁.shared.db.DeviceKeys)
    (hrevoke : w₁.procs commit = some (.delete account device .revoke))
    (hcommit : PresenceStep w₁ (.exec commit draw) w₂)
    (hdrop : w₂.procs commit = some (.delete account device .drop)) :
    w₂.shared.db.Revoked account device := by
  rcases hcommit.procs_next hrevoke with ⟨hother, -⟩ | ⟨draw', -, -, hshared, hnext⟩
  · exact absurd rfl (hother draw)
  · have hphase : (PresenceHandler.execDelete w₁.shared account device draw' .revoke).2 = .drop :=
      (PresenceHandler.delete.inj (Option.some.inj (hnext.symm.trans hdrop))).2.2
    have hpresence : w₂.shared =
        (PresenceHandler.execDelete w₁.shared account device draw' .revoke).1 := hshared
    rw [PresenceHandler.execDelete] at hphase hpresence
    split_ifs at hphase hpresence with hok
    cases hfound : (w₁.shared.db.revokeDevice account device).2 with
    | false =>
        rw [hfound] at hphase
        cases hphase
    | true =>
        rw [hpresence]
        exact Db.revoked_of_revokeDevice keys hfound

/-- A socket of the device that has been admitted since was admitted at the commit. -/
theorem admitted_at_commit {commit : ℕ} {draw : PresenceDraw} {h : PresenceHandler}
    (hhandler : w₁.procs commit = some h) (hno : ∀ s phase, h ≠ .socket s phase)
    (hcommit : PresenceStep w₁ (.exec commit draw) w₂) {phase : SocketPhase}
    (hsocket : w₂.SocketAt i s phase) (hadmitted : phase.admittedYet = true) :
    w₁.SocketAt i s phase := by
  rcases socketAt_cases hcommit hsocket with hearlier | ⟨-, rfl⟩ | ⟨draw', phase₀, heq, hmine, -⟩
  · exact hearlier
  · cases hadmitted
  · cases heq
    exact absurd (Option.some.inj (hhandler.symm.trans hmine)) (hno s phase₀)

/-- **Revocation cuts a device off for good.**  From the commit of a revocation on, in every
state of every schedule: no access check and no refresh of the device succeeds; every activity
check of a socket of the device, in a heartbeat or for a `Hello`, makes it leave its loop; and
once every socket that had passed its access check before the commit has run one heartbeat,
or is closed, the hub has no entry for the device and gets none again. -/
theorem revoked_device_cut_off {earlier : List (Event ℕ PresenceHandler PresenceDraw)}
    {commit : ℕ} {draw₁ : PresenceDraw} (new : w₀.New) (before : Run PresenceStep w₀ earlier w₁)
    (hrevoke : w₁.procs commit = some (.delete account device .revoke))
    (hcommit : PresenceStep w₁ (.exec commit draw₁) w₂)
    (hdrop : w₂.procs commit = some (.delete account device .drop))
    (after : Run PresenceStep w₂ trace w) :
    w.shared.db.deviceActive account device = false ∧
    (∀ draw, ((PresenceHandler.refresh device .credentials).exec w.shared draw).2 =
      .refresh device .refused) ∧
    (∀ draw s, s.account = account → s.device = device →
      ((PresenceHandler.socket s .connecting).exec w.shared draw).2 = .socket s .rejected ∧
      (draw.event.checks = true →
        ((PresenceHandler.socket s .serving).exec w.shared draw).2 = .socket s .closing)) ∧
    ((∀ i s phase, w₁.SocketAt i s phase → s.account = account → s.device = device →
        phase.admittedYet = true → w₂.RanHeartbeat trace w i s ∨ w.SocketAt i s .closed) →
      ∀ later w', Run PresenceStep w later w' →
        w'.shared.hub.sender account device = none) := by
  have hrevoked₂ : w₂.shared.db.Revoked account device :=
    revoked_of_commit (keys_of_run before new) hrevoke hcommit hdrop
  have hrevoked := revoked_of_run after hrevoked₂
  refine ⟨hrevoked.inactive, fun draw => ?_, ?_, fun hclosed later w' hlater => ?_⟩
  · obtain ⟨owner, hash, hcredentials⟩ := hrevoked.credentials
    show PresenceHandler.refresh device (PresenceHandler.execRefresh w.shared device draw
      .credentials) = _
    cases hok : draw.ok <;> simp [PresenceHandler.execRefresh, hok, hcredentials]
  · rintro draw s rfl rfl
    constructor
    · show PresenceHandler.socket s (PresenceHandler.execSocket w.shared s draw .connecting).2 = _
      simp [PresenceHandler.execSocket, hrevoked.inactive]
    · intro hchecks
      show PresenceHandler.socket s (PresenceHandler.execSocket w.shared s draw .serving).2 = _
      cases hevent : draw.event with
      | heartbeat pingOk => simp [PresenceHandler.execSocket, hevent, hrevoked.inactive]
      | hello => simp [PresenceHandler.execSocket, hevent, hrevoked.inactive]
      | other | ends =>
          rw [hevent] at hchecks
          cases hchecks
  · have hregistered : w'.Registered :=
      registered_of_run (((before.snoc hcommit).trans after).trans hlater) new
    cases hsender : w'.shared.hub.sender account device with
    | none => rfl
    | some id =>
        -- the entry is that of a socket in its loop, which was admitted before the commit
        obtain ⟨i, s, phase, hsocket, rfl, rfl, hphase⟩ := hregistered _ _ _ hsender
        have hadmitted : phase.admittedYet = true := by
          cases phase <;> first | rfl | cases hphase
        obtain ⟨phase₂, hsocket₂, hadmitted₂⟩ :=
          admitted_before (after.trans hlater) hrevoked₂ hsocket hadmitted
        have hsocket₁ := admitted_at_commit hrevoke nofun hcommit hsocket₂ hadmitted₂
        have hend : w.SocketAt i s .closed := by
          rcases hclosed i s phase₂ hsocket₁ rfl rfl hadmitted₂ with hran | hend
          · exact closed_of_ranHeartbeat hrevoked₂ hran
          · exact hend
        obtain ⟨-, rfl⟩ := PresenceHandler.socket.inj
          (Option.some.inj ((closed_of_run hlater hend).symm.trans hsocket))
        cases hphase

end Runs

section Example

/-- An account with one device, and nobody connected. -/
def oneLaptop : PresenceWorld where
  shared :=
    { db :=
        { accounts := [1]
          devices := [⟨5, 1, "laptop", .linux, "argon2:secret", none, false⟩]
          blobs := []
          games := []
          versions := []
          config := []
          resolvedConflicts := [] }
      hub := Hub.new }
  procs := fun _ => none

/-- A statement that succeeds. -/
def fine (event : SocketWake) : PresenceDraw := ⟨true, event, true, 0⟩

/-- One socket of the laptop is in its loop, the request of another has passed its access
check, and the owner is about to revoke the laptop. -/
def beforeRevocation : List (Event ℕ PresenceHandler PresenceDraw) :=
  [.start 1 (.socket ⟨11, 1, 5⟩ .connecting), .exec 1 (fine .other), .exec 1 (fine .other),
    .exec 1 (fine .other), .start 2 (.socket ⟨12, 1, 5⟩ .connecting), .exec 2 (fine .other),
    .start 3 (.delete 1 5 .revoke)]

/-- The second socket registers after `drop_device`; both then run a heartbeat. -/
def afterRevocation : List (Event ℕ PresenceHandler PresenceDraw) :=
  [.exec 3 (fine .other), .exec 2 (fine .other), .exec 2 (fine .other),
    .exec 1 (fine (.heartbeat true)), .exec 1 (fine .other), .exec 2 (fine (.heartbeat true)),
    .exec 2 (fine .other)]

/-- The device is connected, and its revocation has begun. -/
def aboutToRevoke : PresenceWorld := beforeRevocation.foldl presenceProgram.next oneLaptop

/-- The row of the device is marked. -/
def justRevoked : PresenceWorld := presenceProgram.next aboutToRevoke (.exec 3 (fine .other))

/-- The revocation has run to its end. -/
def cutOff : PresenceWorld := afterRevocation.foldl presenceProgram.next justRevoked

/-- A socket that registers after the device was dropped ends with its next heartbeat. -/
theorem late_socket_is_cut_off : ((afterRevocation.take 3).foldl presenceProgram.next
      justRevoked).shared.hub.sender 1 5 = some 12 ∧
    cutOff.shared.db.deviceActive 1 5 = false ∧ cutOff.shared.hub.sender 1 5 = none := by
  have before : Run PresenceStep oneLaptop beforeRevocation aboutToRevoke :=
    Run.of_enabled (by decide +kernel)
  have commit : PresenceStep aboutToRevoke (.exec 3 (fine .other)) justRevoked :=
    ⟨by decide +kernel, rfl⟩
  have after : Run PresenceStep justRevoked afterRevocation cutOff :=
    Run.of_enabled (by decide +kernel)
  have revoking : aboutToRevoke.procs 3 = some (.delete 1 5 .revoke) := rfl
  have dropping : justRevoked.procs 3 = some (.delete 1 5 .drop) := rfl
  have new : oneLaptop.New := ⟨List.nodup_singleton 5, rfl, fun _ => rfl⟩
  obtain ⟨hinactive, -, -, hhub⟩ :=
    revoked_device_cut_off new before revoking commit dropping after
  refine ⟨by decide +kernel, hinactive, hhub (fun i s phase hsocket _ _ _ => .inr ?_) _ _ Run.nil⟩
  match i, hsocket with
  | 1, hsocket =>
      obtain ⟨rfl, -⟩ := PresenceHandler.socket.inj (Option.some.inj hsocket)
      rfl
  | 2, hsocket =>
      obtain ⟨rfl, -⟩ := PresenceHandler.socket.inj (Option.some.inj hsocket)
      rfl
  | 3, hsocket => cases hsocket
  | 0, hsocket | _ + 4, hsocket => cases hsocket

end Example

end Savr
