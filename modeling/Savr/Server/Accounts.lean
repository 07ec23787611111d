import Savr.Server.Config
import Savr.Server.Games
import Savr.Server.Invariant

/-!
# Accounts share one database

The calls of `savr-server/src/db.rs` that are made on behalf of an account, with whatever ids
the request names, and the device statements that the other modules do not have.

## Main results

* `accounts_isolated` — no call touches the rows of another account, and a version for
  another account's game leaves no trace.
-/

namespace Savr

/-- The rows of one account. -/
def rowsOf {R : Type} (owner : R → AccountId) (account : AccountId) (rows : List R) : List R :=
  rows.filter fun r => owner r = account

section RowsOf

variable {R : Type} {owner : R → AccountId} {account other : AccountId} {rows new : List R}

theorem rowsOf_append (hnew : ∀ r ∈ new, owner r ≠ other) :
    rowsOf owner other (rows ++ new) = rowsOf owner other rows := by
  have hnone : rowsOf owner other new = [] := by
    rw [rowsOf, List.filter_eq_nil_iff]
    simpa using hnew
  rw [rowsOf, List.filter_append]
  exact (congrArg _ hnone).trans (List.append_nil _)

/-- An update that keeps the owners, and only changes rows of other owners. -/
theorem rowsOf_map {f : R → R} (howner : ∀ r, owner (f r) = owner r)
    (hsame : ∀ r, owner r = other → f r = r) :
    rowsOf owner other (rows.map f) = rowsOf owner other rows := by
  have hkeep : ((fun r => decide (owner r = other)) ∘ f) = fun r => decide (owner r = other) := by
    funext r
    rw [Function.comp_apply, howner]
  rw [rowsOf, List.filter_map, hkeep]
  refine (List.map_congr_left fun r hr => ?_).trans (List.map_id _)
  exact hsame r (by simpa using (List.mem_filter.mp hr).2)

end RowsOf

namespace Db

/-! ### Devices -/

/-- One row under an update with `id = ? AND account_id = ?`. -/
def updateDeviceRow (account : AccountId) (device : DeviceId) (change : DeviceRow → DeviceRow)
    (d : DeviceRow) : DeviceRow :=
  if d.id = device ∧ d.accountId = account then change d else d

/-- `UPDATE devices SET … WHERE id = ? AND account_id = ?`, with the number of rows it
affected. -/
def updateDevice (db : Db) (account : AccountId) (device : DeviceId)
    (change : DeviceRow → DeviceRow) : Db × ℕ :=
  ({ db with devices := db.devices.map (updateDeviceRow account device change) },
    db.devices.countP fun d => d.id = device ∧ d.accountId = account)

/-- Revoke a device; `false` if it does not belong to the account. -/
def revokeDevice (db : Db) (account : AccountId) (device : DeviceId) : Db × Bool :=
  let (db', n) := db.updateDevice account device fun d => { d with revoked := true }
  (db', n = 1)

/-- `touch_device`: note when the device was last seen. -/
def touchDevice (db : Db) (account : AccountId) (device : DeviceId) (now : Timestamp) : Db :=
  (db.updateDevice account device fun d => { d with lastSeen := some now }).1

/-- Insert a freshly paired device with its hashed refresh secret. The id is a primary key,
and the account has to be there. -/
def createDevice (db : Db) (account : AccountId) (device : DeviceId) (name : String) (os : Os)
    (tokenHash : String) (now : Timestamp) : Except ApiError Db :=
  if db.devices.any (fun d => d.id = device) then .error (.internal "UNIQUE constraint failed")
  else if account ∈ db.accounts then
    .ok { db with
      devices := db.devices ++
        [{ id := device, accountId := account, name, os, tokenHash, lastSeen := some now,
           revoked := false }] }
  else .error (.internal "FOREIGN KEY constraint failed")

/-! ### Calls on behalf of an account -/

/-- The arguments a request supplies, and the values the server draws for it. The account is
not among them: it comes from the token. -/
inductive AccountCall
  | ensureGame (title : String) (steamAppid : Option ℕ) (id : GameId)
  | createVersion (gameId : GameId) (req : CreateVersion) (id : VersionId) (now : Timestamp)
  | resolveConflict (gameId : GameId) (winner : VersionId) (keepBoth : Bool) (id : Uuid)
      (now : Timestamp)
  | putConfig (incoming : SyncedConfig) (seed draw : Uuid)
  | revokeDevice (device : DeviceId)
  | touchDevice (device : DeviceId) (now : Timestamp)

/-- The database after a call, whether it succeeds or fails. What a failing call leaves
behind is part of it. -/
def perform (db : Db) (account : AccountId) : AccountCall → Db
  | .ensureGame title steamAppid id => (db.ensureGame account title steamAppid id).1
  | .createVersion gameId req id now => (db.createVersion account gameId req id now).1
  | .resolveConflict gameId winner keepBoth id now =>
      (db.resolveConflict account gameId winner keepBoth id now).1
  | .putConfig incoming seed draw => (db.putConfig account incoming seed draw).1
  | .revokeDevice device => (db.revokeDevice account device).1
  | .touchDevice device now => db.touchDevice account device now

/-- The rows of an account are the same in both states, in every table that has an owner.
Blobs have none: they are shared by their hash. -/
structure SameRows (account : AccountId) (db db' : Db) : Prop where
  games : rowsOf GameRow.accountId account db'.games =
    rowsOf GameRow.accountId account db.games
  versions : rowsOf VersionRow.accountId account db'.versions =
    rowsOf VersionRow.accountId account db.versions
  config : rowsOf ConfigRow.accountId account db'.config =
    rowsOf ConfigRow.accountId account db.config
  devices : rowsOf DeviceRow.accountId account db'.devices =
    rowsOf DeviceRow.accountId account db.devices
  resolvedConflicts : rowsOf ResolvedConflictRow.accountId account db'.resolvedConflicts =
    rowsOf ResolvedConflictRow.accountId account db.resolvedConflicts

section Frames

variable {db db' db'' : Db} {account other : AccountId}

theorem SameRows.refl (account : AccountId) (db : Db) : SameRows account db db :=
  ⟨rfl, rfl, rfl, rfl, rfl⟩

/-- A game of one account leaves the rows of another. -/
theorem sameRows_ensureGame (hne : account ≠ other) (title : String) (steamAppid : Option ℕ)
    (id : GameId) : SameRows other db (db.ensureGame account title steamAppid id).1 := by
  rcases db.ensureGame_cases account title steamAppid id with
    ⟨row, -, heq⟩ | ⟨-, ⟨row, -, heq⟩ | ⟨-, ⟨e, heq⟩ | ⟨-, heq⟩⟩⟩
  · rw [heq]
    exact .refl other db
  · rw [heq]
    exact .refl other db
  · rw [heq]
    exact .refl other db
  · rw [heq]
    exact ⟨rowsOf_append (by simpa using hne), rfl, rfl, rfl, rfl⟩

/-- Moving a head of one account leaves the games of the others. -/
theorem rowsOf_casGames (hne : account ≠ other) (gameId : GameId) (expected : Option VersionId)
    (new : VersionId) (games : List GameRow) :
    rowsOf GameRow.accountId other (casGames account gameId expected new games) =
      rowsOf GameRow.accountId other games := by
  refine rowsOf_map (fun g => ?_) (fun g hg => if_neg ?_)
  · split <;> rfl
  · -- the update names the account, so it misses this row
    have hacc : g.accountId ≠ account := fun h => hne (h.symm.trans hg)
    simp [casMatches, hacc]

/-- What a committed `create_version` can have done, in any state. -/
theorem createVersion_eq (db : Db) (account : AccountId) (gameId : GameId) (req : CreateVersion)
    (id : VersionId) (now : Timestamp) :
    (db.createVersion account gameId req id now).1 = db ∨
    (∃ game, db.findGame account gameId = some game) ∧
      (db.createVersion account gameId req id now).1 = db.created account gameId req id now := by
  cases htx : db.createVersionTx account gameId req id now with
  | error e =>
      rw [createVersion_eq_of_tx_error htx]
      exact Or.inl rfl
  | ok r =>
      obtain ⟨-, -, game, hgame, rfl⟩ := createVersionTx_eq_ok_iff.mp htx
      exact Or.inr ⟨⟨game, hgame⟩, by simp [createVersion, htx]⟩

/-- A version of one account changes no row of another. -/
theorem sameRows_createVersion (hne : account ≠ other) (gameId : GameId) (req : CreateVersion)
    (id : VersionId) (now : Timestamp) :
    SameRows other db (db.createVersion account gameId req id now).1 := by
  rcases createVersion_eq db account gameId req id now with heq | ⟨-, heq⟩
  · rw [heq]
    exact .refl other db
  · rw [heq]
    exact ⟨rowsOf_casGames hne gameId req.parent id db.games,
      rowsOf_append (by simpa [newRow] using hne), rfl, rfl, rfl⟩

/-- A resolution is recorded for the account that asked for it. -/
theorem loserRows_accountId {gameId : GameId} {winner : VersionId} {keepBoth : Bool} {id : Uuid}
    {now : Timestamp} {cur : Option VersionId} :
    ∀ r ∈ loserRows account gameId winner keepBoth id now cur, r.accountId = account := by
  intro r hr
  cases cur with
  | none => cases hr
  | some loser =>
      by_cases hsame : loser = winner
      · simp [loserRows, hsame] at hr
      · obtain rfl : r = _ := by simpa [loserRows, hsame] using hr
        rfl

/-- What a `resolve_conflict` can have done, in any state. -/
theorem resolveConflict_eq (db : Db) (account : AccountId) (gameId : GameId) (winner : VersionId)
    (keepBoth : Bool) (id : Uuid) (now : Timestamp) :
    (db.resolveConflict account gameId winner keepBoth id now).1 = db ∨
    ∃ cur, (db.resolveConflict account gameId winner keepBoth id now).1 =
      db.resolved account gameId winner keepBoth id now cur := by
  unfold resolveConflict
  cases db.findGame account gameId with
  | none => exact Or.inl rfl
  | some game =>
      cases (db.gameRows account gameId).find? fun v => v.id = winner with
      | none => exact Or.inl rfl
      | some row =>
          simp only
          split
          · exact Or.inr ⟨game.head, rfl⟩
          · exact Or.inl rfl

/-- So does a resolution. -/
theorem sameRows_resolveConflict (hne : account ≠ other) (gameId : GameId) (winner : VersionId)
    (keepBoth : Bool) (id : Uuid) (now : Timestamp) :
    SameRows other db (db.resolveConflict account gameId winner keepBoth id now).1 := by
  rcases resolveConflict_eq db account gameId winner keepBoth id now with
    heq | ⟨cur, heq⟩
  · rw [heq]
    exact .refl other db
  · rw [heq]
    refine ⟨rowsOf_casGames hne gameId cur winner db.games, rfl, rfl, rfl, ?_⟩
    refine rowsOf_append fun r hr => ?_
    rw [loserRows_accountId r hr]
    exact hne

/-- Only the config of one account may differ. -/
structure ConfigOnly (account : AccountId) (db db' : Db) : Prop where
  rest : db' = { db with config := db'.config }
  others : ∀ other, account ≠ other → rowsOf ConfigRow.accountId other db'.config =
    rowsOf ConfigRow.accountId other db.config

theorem ConfigOnly.refl (account : AccountId) (db : Db) : ConfigOnly account db db :=
  ⟨rfl, fun _ _ => rfl⟩

theorem ConfigOnly.trans (h : ConfigOnly account db db') (h' : ConfigOnly account db' db'') :
    ConfigOnly account db db'' where
  rest := by
    rw [h'.rest, h.rest]
  others other hne := (h'.others other hne).trans (h.others other hne)

theorem ConfigOnly.sameRows (h : ConfigOnly account db db') (hne : account ≠ other) :
    SameRows other db db' := by
  have hconfig := h.others other hne
  rw [h.rest]
  exact ⟨rfl, rfl, hconfig, rfl, rfl⟩

/-- Seeding a config changes nothing but the account's own. -/
theorem configOnly_insertConfig {draw : Uuid}
    (h : db.insertConfig (seedRow account draw) = .ok db') : ConfigOnly account db db' := by
  rcases db.insertConfig_cases account draw with
    ⟨-, heq⟩ | ⟨-, ⟨-, heq, -⟩ | ⟨-, e, heq⟩⟩
  · obtain rfl := Except.ok.inj (heq.symm.trans h)
    exact .refl account db
  · obtain rfl := Except.ok.inj (heq.symm.trans h)
    exact ⟨rfl, fun other hne => rowsOf_append (by simpa [seedRow] using hne)⟩
  · cases heq.symm.trans h

theorem configOnly_seedDefaultConfig (draw : Uuid) :
    ConfigOnly account db (db.seedDefaultConfig account draw).1 := by
  unfold seedDefaultConfig
  cases hinsert : db.insertConfig (seedRow account draw) with
  | error e => exact .refl account db
  | ok db' => exact configOnly_insertConfig hinsert

theorem configOnly_getOrSeedConfig (draw : Uuid) :
    ConfigOnly account db (db.getOrSeedConfig account draw).1 := by
  unfold getOrSeedConfig
  cases db.readConfig account with
  | some cfg => exact .refl account db
  | none => exact configOnly_seedDefaultConfig draw

theorem configOnly_updateConfig (expected : String) (cfg : SyncedConfig) :
    ConfigOnly account db (db.updateConfig account expected cfg).1 := by
  refine ⟨rfl, fun other hne => rowsOf_map (fun r => setConfigRow_accountId expected r) ?_⟩
  intro r hr
  exact if_neg fun h => hne (h.1.symm.trans hr)

/-- Nor does storing one. -/
theorem configOnly_storeConfig (incoming : SyncedConfig) (storedTag : String) (draw : Uuid) :
    ConfigOnly account db (db.storeConfig account incoming storedTag draw).1 := by
  have hupdate : ConfigOnly account db
      (db.updateConfig account storedTag (incoming.withTag (Uuid.text draw))).1 :=
    configOnly_updateConfig storedTag _
  unfold storeConfig
  simp only
  split <;> exact hupdate

/-- A put changes the config of its account and nothing else. -/
theorem configOnly_putConfig (incoming : SyncedConfig) (seed draw : Uuid) :
    ConfigOnly account db (db.putConfig account incoming seed draw).1 := by
  -- the state after the tag is known, seeded or not
  have hcompare : ∀ (db₁ : Db) (storedTag : String), ConfigOnly account db db₁ →
      ConfigOnly account db (if incoming.tag = storedTag
        then db₁.storeConfig account incoming storedTag draw
        else (db₁, .error (.configConflict storedTag))).1 := by
    intro db₁ storedTag h
    split
    · exact h.trans (configOnly_storeConfig incoming storedTag draw)
    · exact h
  unfold putConfig
  cases db.configTag account with
  | some tag => exact hcompare db tag (.refl account db)
  | none =>
      have hseeded : ConfigOnly account db (db.seedDefaultConfig account seed).1 :=
        configOnly_seedDefaultConfig seed
      cases hseed : db.seedDefaultConfig account seed with
      | mk db' reply =>
          rw [hseed] at hseeded
          cases reply with
          | error e => exact hseeded
          | ok cfg => exact hcompare db' cfg.tag hseeded

/-- A change of a device of one account changes no row of another. -/
theorem sameRows_updateDevice (hne : account ≠ other) (device : DeviceId)
    {change : DeviceRow → DeviceRow} (howner : ∀ d, (change d).accountId = d.accountId) :
    SameRows other db (db.updateDevice account device change).1 := by
  refine ⟨rfl, rfl, rfl, rowsOf_map (fun d => ?_) (fun d hd => if_neg ?_), rfl⟩
  · unfold updateDeviceRow
    split
    · exact howner d
    · rfl
  · exact fun h => hne (h.2.symm.trans hd)

/-- **A call leaves the rows of every other account alone.** -/
theorem sameRows_perform (hne : account ≠ other) (call : AccountCall) :
    SameRows other db (db.perform account call) := by
  cases call with
  | ensureGame title steamAppid id => exact sameRows_ensureGame hne title steamAppid id
  | createVersion gameId req id now => exact sameRows_createVersion hne gameId req id now
  | resolveConflict gameId winner keepBoth id now =>
      exact sameRows_resolveConflict hne gameId winner keepBoth id now
  | putConfig incoming seed draw => exact (configOnly_putConfig incoming seed draw).sameRows hne
  | revokeDevice device => exact sameRows_updateDevice hne device fun _ => rfl
  | touchDevice device now => exact sameRows_updateDevice hne device fun _ => rfl

/-- A version for a game that is not the account's is rolled back. -/
theorem createVersion_of_foreign {gameId : GameId}
    (hforeign : ∀ g ∈ db.games, g.id = gameId → g.accountId ≠ account) (req : CreateVersion)
    (id : VersionId) (now : Timestamp) :
    (db.createVersion account gameId req id now).1 = db := by
  rcases createVersion_eq db account gameId req id now with heq | ⟨⟨game, hgame⟩, -⟩
  · exact heq
  · obtain ⟨hmem, hid, hacc⟩ := findGame_eq_some hgame
    exact absurd hacc (hforeign game hmem hid)

end Frames

end Db

/-- **Accounts cannot touch each other's rows.**  In every state, for every call made for an
account and every other account; and a version for a game that is not the account's leaves
the versions and the reference counts as they were. -/
theorem accounts_isolated (db : Db) (account : AccountId) :
    (∀ call other, other ≠ account → Db.SameRows other db (db.perform account call)) ∧
    ∀ gameId req id now, (∀ g ∈ db.games, g.id = gameId → g.accountId ≠ account) →
      (db.perform account (.createVersion gameId req id now)).versions = db.versions ∧
      (db.perform account (.createVersion gameId req id now)).blobs = db.blobs := by
  refine ⟨fun call other hne => Db.sameRows_perform hne.symm call, ?_⟩
  intro gameId req id now hforeign
  have heq : db.perform account (.createVersion gameId req id now) = db :=
    Db.createVersion_of_foreign hforeign req id now
  exact ⟨by rw [heq], by rw [heq]⟩

/-- Account 1 has a game and a version of it; account 2 has a device. Calls of account 2 that
name the game are the examples. -/
def sharedDb : Db where
  accounts := [1, 2]
  devices := [⟨11, 1, "desktop", .linux, "", none, false⟩, ⟨12, 2, "deck", .linux, "", none, false⟩]
  blobs := [⟨⟨[0]⟩, 10, 1, 0⟩]
  games := [⟨7, 1, "Celeste", none, some 70⟩]
  versions := [⟨⟨70, 7, 11, none, .full, [], ⟨[0]⟩, 10, 1, 0⟩, 1⟩]
  config := []
  resolvedConflicts := []

/-- A version of the second account for the game of the first. -/
def intrusion : CreateVersion where
  parent := some 70
  kind := .full
  files := []
  blobHash := ⟨[0]⟩
  bytes := 10
  deviceId := 12

theorem intrusion_rolled_back :
    Db.SameRows 1 sharedDb (sharedDb.perform 2 (.createVersion 7 intrusion 71 5)) ∧
    (sharedDb.perform 2 (.createVersion 7 intrusion 71 5)).versions = sharedDb.versions ∧
    (sharedDb.perform 2 (.createVersion 7 intrusion 71 5)).blobs = sharedDb.blobs :=
  ⟨(accounts_isolated sharedDb 2).1 _ 1 (by decide),
    (accounts_isolated sharedDb 2).2 7 intrusion 71 5 (by decide)⟩

end Savr
