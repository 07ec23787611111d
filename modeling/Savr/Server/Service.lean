import Savr.Server.Accounts
import Savr.Server.Gc

/-!
# The server between two requests

Everything that can happen to the server while a device is not looking: calls of any
account, new devices, uploads, and the garbage collector.  What a device may rely on is
`Server.Later`: games keep their id, their account and their title, and no device gets the
nil id.

## Main results

* `Server.Later.of_run` — whatever the service does.
-/

namespace Savr

open LabelledRun

/-- What identifies a game. -/
def GameRow.key (g : GameRow) : GameId × AccountId × String :=
  (g.id, g.accountId, g.title)

/-- Something the server does, with the values it draws. -/
inductive ServiceEvent
  | call (account : AccountId) (c : Db.AccountCall)
  | getConfig (account : AccountId) (draw : Uuid)
  | pair (account : AccountId) (device : DeviceId) (name : String) (os : Os)
      (tokenHash : String) (now : Timestamp)
  | blobPut (hash : Blake3Hash) (body : Archive) (now : Timestamp)
  | gc

namespace Server

/-- A request for a version whose blob is missing ends before its transaction. -/
def call (s : Server) (account : AccountId) (c : Db.AccountCall) : Server :=
  match c with
  | .createVersion _ req _ _ =>
      if s.blobExists req.blobHash then { s with db := s.db.perform account c } else s
  | _ => { s with db := s.db.perform account c }

/-- `POST /api/v1/devices/pair`, for a code of this account: the new device, under the id that
is drawn for it. -/
def pair (s : Server) (account : AccountId) (device : DeviceId) (name : String) (os : Os)
    (tokenHash : String) (now : Timestamp) : Server × Except ApiError Authed :=
  match s.db.createDevice account device name os tokenHash now with
  | .error e => (s, .error e)
  | .ok db => ({ s with db }, .ok { accountId := account, deviceId := device })

/-- What a request leaves of the server. -/
def serve [Blake3] (s : Server) : ServiceEvent → Server
  | .call account c => s.call account c
  | .getConfig account draw => { s with db := (s.db.getOrSeedConfig account draw).1 }
  | .pair account device name os tokenHash now =>
      (s.pair account device name os tokenHash now).1
  | .blobPut hash body now => (s.blobPut hash body now).1
  | .gc => s.runGc.1

end Server

/-- The id of a new device is not nil. -/
def ServiceEvent.Enabled (_s : Server) : ServiceEvent → Prop
  | .pair _ device _ _ _ _ => device ≠ Uuid.nil
  | _ => True

/-- One request after the other, with fresh ids. -/
def ServiceStep [Blake3] : Server → ServiceEvent → Server → Prop :=
  guarded ServiceEvent.Enabled Server.serve

/-- What the devices rely on. -/
structure Db.Later (db db' : Db) : Prop where
  keys : db.GameKeys → db'.GameKeys
  games : ∀ g ∈ db.games, ∃ g' ∈ db'.games, g'.key = g.key
  devices : (∀ d ∈ db.devices, d.id ≠ Uuid.nil) → ∀ d ∈ db'.devices, d.id ≠ Uuid.nil

namespace Db

section Later

variable {db db' db'' : Db} {account : AccountId}

theorem Later.refl (db : Db) : Later db db :=
  ⟨id, fun g hg => ⟨g, hg, rfl⟩, id⟩

theorem Later.trans (h : Later db db') (h' : Later db' db'') : Later db db'' where
  keys keys := h'.keys (h.keys keys)
  games g hg := by
    obtain ⟨g', hg', hkey⟩ := h.games g hg
    obtain ⟨g'', hg'', hkey'⟩ := h'.games g' hg'
    exact ⟨g'', hg'', hkey'.trans hkey⟩
  devices hnil := h'.devices (h.devices hnil)

/-- The keys of the games and the ids of the devices are all that matters. -/
theorem Later.of_keys (hgames : db'.games.map GameRow.key = db.games.map GameRow.key)
    (hdevices : db'.devices.map DeviceRow.id = db.devices.map DeviceRow.id) : Later db db' where
  keys keys := by
    have hids : ∀ games : List GameRow,
        games.map GameRow.id = (games.map GameRow.key).map Prod.fst := by
      intro games
      rw [List.map_map]
      rfl
    have htitles : ∀ games : List GameRow,
        (games.map fun g => (g.accountId, g.title)) = (games.map GameRow.key).map Prod.snd := by
      intro games
      rw [List.map_map]
      rfl
    constructor
    · rw [hids, hgames, ← hids]
      exact keys.ids
    · rw [htitles, hgames, ← htitles]
      exact keys.titles
  games g hg := by
    have hmem : g.key ∈ db'.games.map GameRow.key := hgames ▸ List.mem_map_of_mem hg
    exact List.mem_map.mp hmem
  devices hnil d hd := by
    have hmem : d.id ∈ db.devices.map DeviceRow.id := hdevices ▸ List.mem_map_of_mem hd
    obtain ⟨d', hd', hid⟩ := List.mem_map.mp hmem
    exact hid ▸ hnil d' hd'

/-- A new game takes nothing from anyone. -/
theorem later_ensureGame (title : String) (steamAppid : Option ℕ) (id : GameId) :
    Later db (db.ensureGame account title steamAppid id).1 := by
  have hkeys : db.GameKeys → (db.ensureGame account title steamAppid id).1.GameKeys :=
    GameKeys.ensureGame
  rcases db.ensureGame_cases account title steamAppid id with
    ⟨row, -, heq⟩ | ⟨-, ⟨row, -, heq⟩ | ⟨-, ⟨e, heq⟩ | ⟨-, heq⟩⟩⟩
  · rw [heq]
    exact .refl db
  · rw [heq]
    exact .refl db
  · rw [heq]
    exact .refl db
  · rw [heq] at hkeys ⊢
    exact ⟨hkeys, fun g hg => ⟨g, List.mem_append_left _ hg, rfl⟩, fun hnil => hnil⟩

theorem casGames_keys (gameId : GameId) (expected : Option VersionId) (new : VersionId)
    (games : List GameRow) :
    (casGames account gameId expected new games).map GameRow.key = games.map GameRow.key := by
  rw [casGames, List.map_map]
  refine List.map_congr_left fun g _ => ?_
  rw [Function.comp_apply]
  split <;> rfl

theorem ConfigOnly.later (h : ConfigOnly account db db') : Later db db' := by
  rw [h.rest]
  exact .of_keys rfl rfl

/-- A change of a device takes none away. -/
theorem later_updateDevice (device : DeviceId) {change : DeviceRow → DeviceRow}
    (hid : ∀ d, (change d).id = d.id) :
    Later db (db.updateDevice account device change).1 := by
  refine .of_keys rfl ?_
  change (db.devices.map _).map _ = _
  rw [List.map_map]
  refine List.map_congr_left fun d _ => ?_
  rw [Function.comp_apply, updateDeviceRow]
  split
  · exact hid d
  · rfl

/-- **No call forgets a game or renames a device.** -/
theorem later_perform (c : AccountCall) : Later db (db.perform account c) := by
  cases c with
  | ensureGame title steamAppid id => exact later_ensureGame title steamAppid id
  | createVersion gameId req id now =>
      change Later db (db.createVersion account gameId req id now).1
      rcases createVersion_eq db account gameId req id now with heq | ⟨-, heq⟩
      · rw [heq]
        exact .refl db
      · rw [heq]
        exact .of_keys (casGames_keys gameId req.parent id db.games) rfl
  | resolveConflict gameId winner keepBoth id now =>
      change Later db (db.resolveConflict account gameId winner keepBoth id now).1
      rcases resolveConflict_eq db account gameId winner keepBoth id now with heq | ⟨cur, heq⟩
      · rw [heq]
        exact .refl db
      · rw [heq]
        exact .of_keys (casGames_keys gameId cur winner db.games) rfl
  | putConfig incoming seed draw => exact (configOnly_putConfig incoming seed draw).later
  | revokeDevice device => exact later_updateDevice device fun _ => rfl
  | touchDevice device now => exact later_updateDevice device fun _ => rfl

/-- Nor does a new device. -/
theorem later_createDevice {device : DeviceId} {name : String} {os : Os} {tokenHash : String}
    {now : Timestamp} (hdevice : device ≠ Uuid.nil)
    (h : db.createDevice account device name os tokenHash now = .ok db') : Later db db' := by
  unfold createDevice at h
  split at h
  · cases h
  · split at h
    · obtain rfl := Except.ok.inj h
      refine ⟨fun keys => ⟨keys.ids, keys.titles⟩, fun g hg => ⟨g, hg, rfl⟩, fun hnil d hd => ?_⟩
      rcases List.mem_append.mp hd with hd | hd
      · exact hnil d hd
      · obtain rfl := List.mem_singleton.mp hd
        exact hdevice
    · cases h

end Later

end Db

namespace Server

/-- The garbage collector leaves the games and the devices alone, also where it fails. -/
def KeepsOwners (s s' : Server) : Prop :=
  s'.db.games = s.db.games ∧ s'.db.devices = s.db.devices

section Collector

variable {s s' : Server}

/-- A deletion leaves the others with their owners. -/
theorem keepsOwners_delete {id : VersionId} {hash : Blake3Hash} {stats stats' : GcStats}
    (h : s.deleteVersionAndDeref id hash stats = .ok (s', stats')) : KeepsOwners s s' := by
  unfold deleteVersionAndDeref at h
  simp only at h
  split at h
  · cases h
  · split at h
    · split at h
      · cases h
      · cases h
        exact ⟨rfl, rfl⟩
    · cases h
      exact ⟨rfl, rfl⟩

/-- So do several. -/
theorem keepsOwners_deleteRows (vs : List Db.GcVersion) (s : Server) (stats : GcStats) :
    KeepsOwners s (deleteRows vs (s, stats)).1 := by
  induction vs generalizing s stats with
  | nil => exact ⟨rfl, rfl⟩
  | cons v vs ih =>
      cases hdelete : s.deleteVersionAndDeref v.id v.blobHash stats with
      | error e => simp [deleteRows, hdelete, KeepsOwners]
      | ok next =>
          have hone : KeepsOwners s next.1 := keepsOwners_delete hdelete
          have hrest := ih next.1 next.2
          simp only [deleteRows, hdelete]
          exact ⟨hrest.1.trans hone.1, hrest.2.trans hone.2⟩

/-- So does pruning the games of an account. -/
theorem keepsOwners_pruneGames (account : AccountId) (retention : Retention)
    (games : List GameRow) (s : Server) (stats : GcStats) :
    KeepsOwners s (pruneGames account retention games (s, stats)).1 := by
  induction games generalizing s stats with
  | nil => exact ⟨rfl, rfl⟩
  | cons g games ih =>
      have hone : KeepsOwners s
          (s.pruneGame account g.id (s.db.head account g.id) retention stats).1 :=
        keepsOwners_deleteRows _ s stats
      cases hprune : s.pruneGame account g.id (s.db.head account g.id) retention stats with
      | mk s' result =>
          rw [hprune] at hone
          cases result with
          | error e =>
              simp only [pruneGames, hprune]
              exact hone
          | ok stats' =>
              have hrest := ih s' stats'
              simp only [pruneGames, hprune]
              exact ⟨hrest.1.trans hone.1, hrest.2.trans hone.2⟩

/-- So does a retention run. -/
theorem keepsOwners_pruneAccounts (accounts : List AccountId) (s : Server) (stats : GcStats) :
    KeepsOwners s (pruneAccounts accounts (s, stats)).1 := by
  induction accounts generalizing s stats with
  | nil => exact ⟨rfl, rfl⟩
  | cons account accounts ih =>
      have hone := keepsOwners_pruneGames account (s.db.configRetention account)
        (s.db.games.filter fun g => g.accountId = account) s stats
      cases hprune : pruneGames account (s.db.configRetention account)
          (s.db.games.filter fun g => g.accountId = account) (s, stats) with
      | mk s' result =>
          rw [hprune] at hone
          cases result with
          | error e =>
              simp only [pruneAccounts, hprune]
              exact hone
          | ok stats' =>
              have hrest := ih s' stats'
              simp only [pruneAccounts, hprune]
              exact ⟨hrest.1.trans hone.1, hrest.2.trans hone.2⟩

end Collector

/-- The server has moved on. -/
def Later (s s' : Server) : Prop :=
  s.db.Later s'.db

variable [Blake3] {s s' : Server} {trace : List ServiceEvent}

/-- No request takes anything from another account. -/
theorem later_serve (ev : ServiceEvent) (enabled : ev.Enabled s) : s.Later (s.serve ev) := by
  cases ev with
  | call account c =>
      have hcall : s.call account c = s ∨
          s.call account c = { s with db := s.db.perform account c } := by
        cases c with
        | createVersion gameId req id now =>
            by_cases hblob : s.blobExists req.blobHash = true
            · exact Or.inr (if_pos hblob)
            · exact Or.inl (if_neg hblob)
        | ensureGame | resolveConflict | putConfig | revokeDevice | touchDevice =>
            exact Or.inr rfl
      rcases hcall with heq | heq
      · change s.Later (s.call account c)
        rw [heq]
        exact Db.Later.refl s.db
      · change s.Later (s.call account c)
        rw [heq]
        exact Db.later_perform c
  | getConfig account draw => exact (Db.configOnly_getOrSeedConfig draw).later
  | pair account device name os tokenHash now =>
      change s.db.Later (s.pair account device name os tokenHash now).1.db
      unfold pair
      cases hcreate : s.db.createDevice account device name os tokenHash now with
      | error e => exact Db.Later.refl s.db
      | ok db => exact Db.later_createDevice enabled hcreate
  | blobPut hash body now =>
      change s.db.Later (s.blobPut hash body now).1.db
      unfold blobPut
      split
      · exact Db.Later.of_keys (congrArg _ (Db.recordBlob_frame hash _).1)
          (congrArg _ (Db.recordBlob_frame hash _).2.2)
      · exact Db.Later.refl s.db
  | gc =>
      have hkeep := keepsOwners_pruneAccounts s.db.accounts s default
      exact Db.Later.of_keys (by rw [show s.serve .gc = s.runGc.1 from rfl, runGc, hkeep.1])
        (by rw [show s.serve .gc = s.runGc.1 from rfl, runGc, hkeep.2])

/-- **Whatever the service does**, games stay and no device is nil. -/
theorem Later.of_run (run : Run ServiceStep s trace s') : s.Later s' :=
  run.invariant (I := fun t => s.Later t)
    (fun _ ev _ h step => by
      obtain ⟨enabled, rfl⟩ := step
      exact Db.Later.trans h (later_serve ev enabled))
    (Db.Later.refl s.db)

end Server

end Savr
