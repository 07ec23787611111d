import Savr.Server.Hub

/-!
# Who made a version, and who is told

Two device ids meet in `create_version` of `savr-server/src/api.rs`: the one the request was
authenticated as, and the one in its body.  The stored version and the exception of the
broadcast both take the second; the siblings `resolve` and `put_config` take the first.

## Main results

* `author_and_fanout_iff` — when the version names its author and every other device is told.
-/

namespace Savr

/-- The messages of a handler, one after the other. -/
def Hub.deliver (h : Hub) (pushes : List Broadcast) (queues : SocketId → List ServerMsg) :
    SocketId → List ServerMsg :=
  pushes.foldl (fun queues b => h.broadcast b queues) queues

/-- A version that was stored for a device: it is the author, every other device of its
account that is registered has the announcement in its queue, and nothing is sent on a
channel that belongs to other accounts. -/
structure AuthorTold (auth : Authed) (gameId : GameId) (v : Version) (db : Db) (hub : Hub)
    (queues queues' : SocketId → List ServerMsg) : Prop where
  author : ∀ row ∈ db.versions, row.id = v.id → row.deviceId = auth.deviceId
  told : ∀ device tx, device ≠ auth.deviceId → hub.sender auth.accountId device = some tx →
    ∃ more, queues' tx = queues tx ++ .versionAvailable gameId v.id v.seq :: more
  others : ∀ tx, (∀ e ∈ hub.entries, e.sender = tx → e.account ≠ auth.accountId) →
    queues' tx = queues tx

section Create

variable {db db' : Db} {s s' : Server} {auth : Authed} {account : AccountId} {gameId : GameId}
  {req : CreateVersion} {id : VersionId} {now : Timestamp} {v : Version} {pushes : List Broadcast}

/-- A fast-forward returns the row it inserted, in any state. -/
theorem Db.createVersion_fastForward
    (h : db.createVersion account gameId req id now = (db', .ok (.fastForward v))) :
    (∀ row ∈ db.versions, row.id ≠ id) ∧ db' = db.created account gameId req id now ∧
      v = (db.newRow account gameId req id now).toVersion := by
  cases htx : db.createVersionTx account gameId req id now with
  | error e =>
      rw [Db.createVersion_eq_of_tx_error htx] at h
      cases h
  | ok r =>
      obtain ⟨hunique, -, game, -, rfl⟩ := Db.createVersionTx_eq_ok_iff.mp htx
      have hnew : ∀ row ∈ db.versions, row.id ≠ id := fun row hrow =>
        (Db.uniqueOk_iff.mp hunique row hrow).1
      have hfind : db.versions.find? (fun row => row.id = id) = none := by
        rw [List.find?_eq_none]
        simpa using hnew
      have hload : (db.created account gameId req id now).loadVersion id =
          .ok (db.newRow account gameId req id now).toVersion := by
        rw [Db.loadVersion, Db.created, List.find?_append, hfind]
        simp [Db.newRow]
      simp only [Db.createVersion, htx, hload, Prod.mk.injEq] at h
      obtain ⟨rfl, hreply⟩ := h
      refine ⟨hnew, rfl, ?_⟩
      split at hreply
      · cases hreply
        rfl
      · exfalso
        cases hhead : game.head with
        | none =>
            rw [hhead] at hreply
            cases hreply
        | some head =>
            simp only [hhead] at hreply
            cases hother : (db.created account gameId req id now).loadVersion head with
            | error e =>
                rw [hother] at hreply
                cases hreply
            | ok headVersion =>
                rw [hother] at hreply
                cases hreply

/-- A fast-forward stores one new row, under the device of the request body, and announces it
to all other devices than that one. -/
theorem Server.createVersion_fastForward
    (h : s.createVersion auth gameId req id now = (s', .ok (.fastForward v), pushes)) :
    (∀ row ∈ s'.db.versions, row.id = v.id → row.deviceId = req.deviceId) ∧
    (∃ row ∈ s'.db.versions, row.id = v.id) ∧
    pushes = [{ accountId := auth.accountId, except := some req.deviceId,
                msg := .versionAvailable gameId v.id v.seq }] := by
  unfold Server.createVersion at h
  split at h
  · cases hcreate : s.db.createVersion auth.accountId gameId req id now with
    | mk db reply =>
        simp only [hcreate, Prod.mk.injEq] at h
        obtain ⟨rfl, rfl, rfl⟩ := h
        obtain ⟨hnew, rfl, rfl⟩ := Db.createVersion_fastForward hcreate
        refine ⟨fun row hrow hid => ?_, ?_, rfl⟩
        · rcases List.mem_append.mp hrow with hrow | hrow
          · exact absurd hid (hnew row hrow)
          · obtain rfl := List.mem_singleton.mp hrow
            rfl
        · exact ⟨s.db.newRow auth.accountId gameId req id now,
            List.mem_append_right _ (List.mem_singleton_self _), rfl⟩
  · cases h

end Create

/-- A push goes only to channels of its account. -/
theorem Hub.broadcast_other {h : Hub} {b : Broadcast} {tx : SocketId}
    (hother : ∀ e ∈ h.entries, e.sender = tx → e.account ≠ b.accountId)
    (queues : SocketId → List ServerMsg) : h.broadcast b queues tx = queues tx := by
  have hnone : (h.recipients b).filter (fun r => r = tx) = [] := by
    rw [List.filter_eq_nil_iff]
    intro r hr
    obtain ⟨e, he, rfl⟩ := List.mem_map.mp hr
    obtain ⟨hmem, hreaches⟩ := List.mem_filter.mp he
    simp only [Broadcast.reaches, Bool.and_eq_true, decide_eq_true_eq] at hreaches
    simp only [decide_eq_true_eq]
    exact fun htx => hother e hmem htx hreaches.1.symm
  rw [Hub.broadcast, hnone]
  exact List.append_nil _

/-- **Exactly when a version names its author and every other device is told.**  For every
create request that fast-forwards, whatever its body contains, and every state of the server
and the hub: if and only if the body names the authenticated device. -/
theorem author_and_fanout_iff {s s' : Server} {auth : Authed} {gameId : GameId}
    {req : CreateVersion} {id : VersionId} {now : Timestamp} {v : Version}
    {pushes : List Broadcast}
    (hff : s.createVersion auth gameId req id now = (s', .ok (.fastForward v), pushes))
    (hub : Hub) (queues : SocketId → List ServerMsg) :
    AuthorTold auth gameId v s'.db hub queues (hub.deliver pushes queues) ↔
      req.deviceId = auth.deviceId := by
  obtain ⟨hauthor, ⟨row, hrow, hid⟩, rfl⟩ := Server.createVersion_fastForward hff
  constructor
  · intro h
    exact (hauthor row hrow hid).symm.trans (h.author row hrow hid)
  · intro hsame
    refine ⟨fun r hr hrid => (hauthor r hr hrid).trans hsame, ?_, ?_⟩
    · intro device tx hne hsender
      refine Hub.broadcast_of_sender hsender ?_ queues
      simpa [Broadcast.reaches, hsame] using hne.symm
    · exact fun tx hother => Hub.broadcast_other hother queues

section Example

/-- Three devices of one account; its game has no version yet. The examples post under the id
of another of them. -/
def threeDevices : Server where
  db :=
    { accounts := [1]
      devices := [⟨21, 1, "old desktop", .linux, "", none, false⟩,
        ⟨22, 1, "deck", .linux, "", none, false⟩, ⟨23, 1, "desktop", .linux, "", none, false⟩]
      blobs := [⟨⟨[1]⟩, 10, 0, 0⟩], games := [⟨10, 1, "Celeste", none, none⟩]
      versions := [], config := [], resolvedConflicts := [] }
  objects := fun hash =>
    if hash = ⟨[1]⟩ then some ⟨⟨10, 21, none, .full, [], [], 0⟩, [], none⟩ else none

/-- All three are connected, on channels of their own. -/
def connectedHub : Hub :=
  ((Hub.new.register 1 21 1).register 1 22 2).register 1 23 3

/-- An upload whose body names `device`. -/
def uploadAs (device : DeviceId) : CreateVersion where
  parent := none
  kind := .full
  files := []
  blobHash := ⟨[1]⟩
  bytes := 10
  deviceId := device

/-- The server and the queues after device 23 uploaded; all queues were empty. -/
def afterUpload (device : DeviceId) : Server × (SocketId → List ServerMsg) :=
  let (s, _, pushes) := threeDevices.createVersion ⟨1, 23⟩ 10 (uploadAs device) 100 5
  (s, connectedHub.deliver pushes fun _ => [])

/-- The stored version. -/
def storedUpload (device : DeviceId) : Version :=
  ⟨100, 10, device, none, .full, [], ⟨[1]⟩, 10, 1, 5⟩

theorem own_upload_told :
    AuthorTold ⟨1, 23⟩ 10 (storedUpload 23) (afterUpload 23).1.db connectedHub (fun _ => [])
      (afterUpload 23).2 := by
  have hff : threeDevices.createVersion ⟨1, 23⟩ 10 (uploadAs 23) 100 5 =
      ((afterUpload 23).1, .ok (.fastForward (storedUpload 23)),
        [⟨1, some 23, .versionAvailable 10 100 1⟩]) := rfl
  exact (author_and_fanout_iff hff connectedHub fun _ => []).mpr rfl

/-- **A queued upload that predates a re-pairing**: device 23 submits what it queued as
device 21.  The version is stored as 21's, and 21, which is registered and did not make it,
is not told. -/
theorem repaired_upload_misattributed :
    (threeDevices.createVersion ⟨1, 23⟩ 10 (uploadAs 21) 100 5).2.1 =
      .ok (.fastForward (storedUpload 21)) ∧
    (storedUpload 21).deviceId ≠ 23 ∧ connectedHub.sender 1 21 = some 1 ∧
    (afterUpload 21).2 1 = [] := by
  refine ⟨rfl, by decide, by decide, by decide⟩

end Example

end Savr
