import Savr.Core.PlainDigest
import Savr.Lib.Run
import Savr.Server.ApiSpec

/-!
# The blob gate

`blob_head`, `blob_put`, `create_version` and `blob_get` of `savr-server/src/api.rs`, for the
devices of several accounts.  The gate of `blob_get` is `account_references_blob`: the
account has a version that names the hash.  Such a version is created by another request, and
from a hash the client supplies.

## Main results

* `possession_iff` — the runs in which a blob is only served to an account that uploaded it.
-/

namespace Savr

open LabelledRun

/-- The server, with a record of who uploaded what. -/
structure GateWorld where
  server : Server
  uploaded : List (AccountId × Blake3Hash)

/-- A request, of a device that is authenticated. -/
inductive GateEvent
  | head (auth : Authed) (hash : Blake3Hash)
  | put (auth : Authed) (hash : Blake3Hash) (body : Archive) (now : Timestamp)
  | create (auth : Authed) (gameId : GameId) (req : CreateVersion) (id : VersionId)
      (now : Timestamp)
  | get (auth : Authed) (hash : Blake3Hash)

namespace GateWorld

/-- The id drawn for a version is new. -/
def Enabled (w : GateWorld) : GateEvent → Prop
  | .create _ _ req id _ => req.parent ≠ some id ∧ ∀ v ∈ w.server.db.versions, v.id ≠ id
  | _ => True

/-- Nothing has been uploaded yet. -/
structure New (w : GateWorld) : Prop where
  fresh : w.server.db.Fresh
  empty : ∀ hash, w.server.objects hash = none
  uploaded : w.uploaded = []

/-- **Possession.**  A `blob_get` would be answered with content only to an account one of
whose devices has uploaded it. -/
def Possession (w : GateWorld) : Prop :=
  ∀ account hash body, w.server.blobGet account hash = .ok body → (account, hash) ∈ w.uploaded

/-- A version that the server accepts names an archive that its account has uploaded. -/
def OwnUpload (w : GateWorld) : GateEvent → Prop
  | .create auth gameId req _ _ =>
      w.server.blobExists req.blobHash = true →
        w.server.Accepts auth.accountId gameId req → (auth.accountId, req.blobHash) ∈ w.uploaded
  | _ => True

/-- An upload counts if the server took it. -/
def recordUpload (uploaded : List (AccountId × Blake3Hash)) (account : AccountId)
    (hash : Blake3Hash) : Except ApiError Bool → List (AccountId × Blake3Hash)
  | .ok _ => uploaded ++ [(account, hash)]
  | .error _ => uploaded

variable [Blake3]

/-- The state after a request. -/
def next (w : GateWorld) : GateEvent → GateWorld
  | .put auth hash body now =>
      let (server, reply) := w.server.blobPut hash body now
      { server, uploaded := recordUpload w.uploaded auth.accountId hash reply }
  | .create auth gameId req id now =>
      { w with server := (w.server.createVersion auth gameId req id now).1 }
  | .head _ _ | .get _ _ => w

end GateWorld

/-- One request after the other, with fresh ids. -/
def GateStep [Blake3] : GateWorld → GateEvent → GateWorld → Prop :=
  guarded GateWorld.Enabled GateWorld.next

/-- The gate and the file. -/
theorem Server.blobGet_ok_iff {s : Server} {account : AccountId} {hash : Blake3Hash}
    {body : Archive} :
    s.blobGet account hash = .ok body ↔
      (∃ v ∈ s.db.versions, v.blobHash = hash ∧ v.accountId = account) ∧
        s.objects hash = some body := by
  unfold Server.blobGet
  by_cases hgate : ∃ v ∈ s.db.versions, v.blobHash = hash ∧ v.accountId = account
  · have hany : (s.db.versions.any fun v => v.blobHash = hash && v.accountId = account) = true := by
      simpa [List.any_eq_true] using hgate
    rw [if_pos hany, and_iff_right hgate]
    cases s.objects hash with
    | none => simp
    | some a => simp
  · have hany : ¬ (s.db.versions.any fun v =>
        v.blobHash = hash && v.accountId = account) = true := by
      simpa [List.any_eq_true] using hgate
    rw [if_neg hany]
    exact iff_of_false (by simp) fun h => hgate h.1

section Steps

variable [Blake3] {w w' : GateWorld} {ev : GateEvent}

theorem GateStep.sound (sound : w.server.Sound) (step : GateStep w ev w') : w'.server.Sound := by
  obtain ⟨enabled, rfl⟩ := step
  cases ev with
  | head auth hash => exact sound
  | put auth hash body now => exact Server.blobPut_sound sound
  | create auth gameId req id now => exact Server.createVersion_sound sound enabled.1
  | get auth hash => exact sound

/-- An upload opens no gate: what is referenced was stored before. -/
theorem GateWorld.Possession.put (sound : w.server.Sound) (h : w.Possession) (auth : Authed)
    (hash : Blake3Hash) (body : Archive) (now : Timestamp) :
    (w.next (.put auth hash body now)).Possession := by
  intro account hash' body' hget
  obtain ⟨⟨v, hv, rfl, rfl⟩, -⟩ := Server.blobGet_ok_iff.mp hget
  change v ∈ (w.server.blobPut hash body now).1.db.versions at hv
  rw [Server.blobPut_versions] at hv
  obtain ⟨a, ha⟩ := sound.stored v hv
  have hold := h v.accountId v.blobHash a (Server.blobGet_ok_iff.mpr ⟨⟨v, hv, rfl, rfl⟩, ha⟩)
  change _ ∈ GateWorld.recordUpload w.uploaded auth.accountId hash
    (w.server.blobPut hash body now).2
  cases (w.server.blobPut hash body now).2 with
  | ok existed => exact List.mem_append_left _ hold
  | error e => exact hold

/-- **A version opens the gate for its account**, which is right exactly if the account has
the archive. -/
theorem GateWorld.Possession.create_iff (sound : w.server.Sound) (h : w.Possession)
    {auth : Authed} {gameId : GameId} {req : CreateVersion} {id : VersionId} {now : Timestamp}
    (enabled : w.Enabled (.create auth gameId req id now)) :
    (w.next (.create auth gameId req id now)).Possession ↔
      w.OwnUpload (.create auth gameId req id now) := by
  have hiff : (∃ advance, (w.server.createVersion auth gameId req id now).2.1 = .ok advance) ↔
      w.server.blobExists req.blobHash = true ∧ w.server.Accepts auth.accountId gameId req :=
    Server.createVersion_ok_iff sound enabled.1 enabled.2
  rcases Server.createVersion_cases sound auth gameId now enabled.1 with
    ⟨e, heq⟩ | ⟨hex, -, -, -, advance, -, heq⟩
  · -- refused: nothing changes
    have hsame : w.next (.create auth gameId req id now) = w := by
      rw [GateWorld.next, heq]
    rw [hsame]
    refine iff_of_true h fun hex accepts => ?_
    obtain ⟨advance, hok⟩ := hiff.mpr ⟨hex, accepts⟩
    rw [heq] at hok
    cases hok
  · have haccepts := (hiff.mp ⟨advance, by rw [heq]⟩).2
    have hnext : w.next (.create auth gameId req id now) =
        { w with server := w.server.withVersion auth.accountId gameId req id now } := by
      rw [GateWorld.next, heq]
    rw [hnext]
    constructor
    · intro hpossession _ _
      obtain ⟨body, hbody⟩ := Option.isSome_iff_exists.mp hex
      refine hpossession auth.accountId req.blobHash body (Server.blobGet_ok_iff.mpr ⟨?_, hbody⟩)
      exact ⟨w.server.db.newRow auth.accountId gameId req id now,
        List.mem_append_right _ (List.mem_singleton_self _), rfl, rfl⟩
    · intro hown account hash body hget
      obtain ⟨⟨v, hv, rfl, rfl⟩, hbody⟩ := Server.blobGet_ok_iff.mp hget
      rcases List.mem_append.mp hv with hv | hv
      · exact h v.accountId v.blobHash body (Server.blobGet_ok_iff.mpr ⟨⟨v, hv, rfl, rfl⟩, hbody⟩)
      · obtain rfl := List.mem_singleton.mp hv
        exact hown hex haccepts

/-- A step keeps possession exactly when the version it creates is of an upload of its own
account. -/
theorem GateWorld.Possession.step_iff (sound : w.server.Sound) (h : w.Possession)
    (step : GateStep w ev w') : w'.Possession ↔ w.OwnUpload ev := by
  obtain ⟨enabled, rfl⟩ := step
  cases ev with
  | head auth hash => exact iff_of_true h trivial
  | put auth hash body now => exact iff_of_true (h.put sound auth hash body now) trivial
  | create auth gameId req id now => exact h.create_iff sound enabled
  | get auth hash => exact iff_of_true h trivial

/-- **Exactly when the gate requires possession.**  For every run of requests by devices of
any accounts: in every state a blob is served only to accounts that uploaded it, if and only
if every version that is accepted in the run names an archive its account has uploaded. -/
theorem possession_iff {w₀ w : GateWorld} {trace : List GateEvent} (new : w₀.New) :
    Run (into GateStep GateWorld.Possession) w₀ trace w ↔
      Run (under GateStep GateWorld.OwnUpload) w₀ trace w := by
  refine Run.into_iff_under_of_invariant (I := fun w => w.server.Sound)
    (fun _ _ _ sound step => step.sound sound) (.of_fresh new.fresh new.empty) ?_
    fun _ _ _ sound h step => h.step_iff sound step
  intro account hash body hget
  obtain ⟨⟨v, hv, -⟩, -⟩ := Server.blobGet_ok_iff.mp hget
  rw [new.fresh.noVersions] at hv
  cases hv

end Steps

section Example

local instance gateDigest : Blake3 := plainDigest

/-- Two accounts, with one device and one game each. Nothing has been uploaded. -/
def twoAccounts : GateWorld where
  server :=
    { db :=
        { accounts := [1, 2]
          devices := [⟨11, 1, "desktop", .linux, "", none, false⟩,
            ⟨12, 2, "deck", .linux, "", none, false⟩]
          blobs := []
          games := [⟨7, 1, "Celeste", none, none⟩, ⟨8, 2, "Celeste", none, none⟩]
          versions := [], config := [], resolvedConflicts := [] }
      objects := fun _ => none }
  uploaded := []

/-- The archive of the first account. -/
def privateArchive : Archive where
  metadata :=
    { gameId := 7, deviceId := 11, parent := none, kind := .full, files := [], deletions := []
      createdAt := 1 }
  payload := []
  registry := none

/-- A version that names it, whoever asks. -/
def namesPrivate (device : DeviceId) : CreateVersion where
  parent := none
  kind := .full
  files := []
  blobHash := Blake3.ofArchive privateArchive
  bytes := 0
  deviceId := device

/-- Both accounts upload what their versions name. -/
def bothUpload : List GateEvent :=
  [.put ⟨1, 11⟩ (Blake3.ofArchive privateArchive) privateArchive 1,
    .create ⟨1, 11⟩ 7 (namesPrivate 11) 71 1,
    .put ⟨2, 12⟩ (Blake3.ofArchive privateArchive) privateArchive 2,
    .create ⟨2, 12⟩ 8 (namesPrivate 12) 81 2]

theorem twoAccounts_new : twoAccounts.New :=
  ⟨⟨by decide, by decide, by decide, by decide, rfl, by decide, by decide⟩, fun _ => rfl, rfl⟩

theorem bothUpload_possession :
    Run (into GateStep GateWorld.Possession) twoAccounts bothUpload
      (bothUpload.foldl GateWorld.next twoAccounts) :=
  (possession_iff twoAccounts_new).mpr (Run.under_of_enabled (Run.of_enabled
    ⟨⟨trivial, trivial⟩, ⟨⟨by decide, by decide⟩, fun _ _ => by decide⟩, ⟨trivial, trivial⟩,
      ⟨⟨by decide, by decide⟩, fun _ _ => by decide⟩, trivial⟩))

/-- The second account only knows the hash. -/
def onlyKnowsHash : List GateEvent :=
  [.put ⟨1, 11⟩ (Blake3.ofArchive privateArchive) privateArchive 1,
    .create ⟨1, 11⟩ 7 (namesPrivate 11) 71 1,
    .head ⟨2, 12⟩ (Blake3.ofArchive privateArchive),
    .create ⟨2, 12⟩ 8 (namesPrivate 12) 81 2,
    .get ⟨2, 12⟩ (Blake3.ofArchive privateArchive)]

/-- **Knowing the hash is enough**: a version of one's own that names it opens the gate. -/
theorem known_hash_opens_gate :
    twoAccounts.New ∧
    Run GateStep twoAccounts onlyKnowsHash (onlyKnowsHash.foldl GateWorld.next twoAccounts) ∧
    (onlyKnowsHash.foldl GateWorld.next twoAccounts).server.blobGet 2
      (Blake3.ofArchive privateArchive) = .ok privateArchive ∧
    ∀ auth hash body now, .put auth hash body now ∈ onlyKnowsHash → auth.accountId ≠ 2 := by
  refine ⟨twoAccounts_new, Run.of_enabled
    ⟨trivial, ⟨by decide, by decide⟩, trivial, ⟨by decide, by decide⟩, trivial, trivial⟩,
    by decide, ?_⟩
  intro auth hash body now hput
  simp only [onlyKnowsHash, List.mem_cons, GateEvent.put.injEq, reduceCtorEq, List.not_mem_nil,
    or_false] at hput
  rw [hput.1]
  decide

end Example

end Savr
