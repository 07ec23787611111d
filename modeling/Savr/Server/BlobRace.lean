import Savr.Core.PlainDigest
import Savr.Server.ApiSpec
import Savr.Server.GcRun
import Savr.Server.HeadCas

/-!
# The blob store under concurrent requests

Three handlers share a content-addressed name, and none of them is atomic:
`blob_put` writes an object and then inserts its row; `create_version` looks for the
object and then runs its transaction; `delete_version_and_deref` commits the deletion
of a row and then unlinks the object.  A run here interleaves these steps, for any
number of clients and one retention run.

The foreign key keeps a row under every version, so an archive is lost exactly where a
row is inserted whose object is gone or about to be unlinked.

## Main results

* `blobPut_eq_steps`, `createVersion_eq_steps`, `deleteVersionAndDeref_eq_steps` — the
  atomic handlers are their steps, taken without a break.
* `versions_keep_archives` — where no row is inserted like that, every version keeps
  its archive.
* `reupload_during_gc_loses_archive` — a run in which a stored version loses it.
-/

namespace Savr

open LabelledRun

/-- The transaction of `delete_version_and_deref`: the new state, and whether the blob
went with the version. -/
def Db.deleteVersionTx (db : Db) (id : VersionId) (hash : Blake3Hash) :
    Except ApiError (Db × Bool) :=
  let cleared := db.versions.map (clearParent fun p => p = id)
  if db.games.any (fun g => g.head = some id) then
    .error (.internal "FOREIGN KEY constraint failed")
  else
    let db' := { db with versions := cleared.filter fun v => v.id ≠ id }.addRefcount hash (-1)
    let refcount := (db'.blobs.find? fun b => b.hash = hash).map BlobRow.refcount
    if refcount.any (· ≤ 0) then
      if db'.versions.any (fun v => v.blobHash = hash) then
        .error (.internal "FOREIGN KEY constraint failed")
      else .ok ({ db' with blobs := db'.blobs.filter fun b => b.hash ≠ hash }, true)
    else .ok (db', false)

/-- A request of `create_version` before an id is drawn for it. -/
structure VersionRequest where
  account : AccountId
  gameId : GameId
  req : CreateVersion
  deriving DecidableEq, Repr

/-- The server between the steps of its handlers, with what each of them knows by then. -/
structure BlobWorld where
  server : Server
  /-- Uploads that have written their object, with its length. -/
  puts : List (Blake3Hash × ℕ)
  /-- Version requests that have found their object. -/
  checked : List VersionRequest
  /-- The object the retention run unlinks next. -/
  unlink : Option Blake3Hash

/-- A step of an upload, of a version request or of the retention run. Requests of different
accounts and uploads of one object may overlap in any way. -/
inductive BlobEvent
  | writeObject (body : Archive)
  | insertRow (hash : Blake3Hash) (bytes : ℕ) (now : Timestamp)
  | checkObject (request : VersionRequest)
  | commitVersion (request : VersionRequest) (id : VersionId) (now : Timestamp)
  /-- The row was read by the retention run; whichever marks it computed from what it
  read, the row is not changed by anybody else. -/
  | deleteVersion (row : VersionRow)
  | unlinkObject (hash : Blake3Hash)
  deriving DecidableEq, Repr

instance (db : Db) (hash : Blake3Hash) : Decidable (db.Recorded hash) :=
  inferInstanceAs (Decidable (∃ b ∈ db.blobs, b.hash = hash))

namespace BlobWorld

/-- No request and no retention run has started. -/
structure New (w : BlobWorld) : Prop where
  fresh : w.server.db.Fresh
  stored : ∀ hash, w.server.db.Recorded hash → w.server.blobExists hash = true
  unlink : w.unlink = none

/-- What has to come before the step. The retention run unlinks an object before it goes on
to the next row. -/
def Enabled (w : BlobWorld) : BlobEvent → Prop
  | .writeObject _ => True
  | .insertRow hash bytes _ => (hash, bytes) ∈ w.puts
  | .checkObject _ => True
  | .commitVersion request id _ =>
      request ∈ w.checked ∧ request.req.parent ≠ some id ∧
        ∀ v ∈ w.server.db.versions, v.id ≠ id
  | .deleteVersion row => w.unlink = none ∧ row ∈ w.server.db.versions
  | .unlinkObject hash => w.unlink = some hash

instance (w : BlobWorld) : ∀ ev, Decidable (w.Enabled ev)
  | .writeObject _ => isTrue trivial
  | .insertRow hash bytes _ => inferInstanceAs (Decidable ((hash, bytes) ∈ w.puts))
  | .checkObject _ => isTrue trivial
  | .commitVersion request id _ =>
      inferInstanceAs (Decidable (request ∈ w.checked ∧ request.req.parent ≠ some id ∧
        ∀ v ∈ w.server.db.versions, v.id ≠ id))
  | .deleteVersion row =>
      inferInstanceAs (Decidable (w.unlink = none ∧ row ∈ w.server.db.versions))
  | .unlinkObject hash => inferInstanceAs (Decidable (w.unlink = some hash))

variable [Blake3]

/-- The state after a step. Creating a version checks the blob row, not the object, which was
looked for a step before. -/
def next (w : BlobWorld) : BlobEvent → BlobWorld
  | .writeObject body =>
      { w with
        server := { w.server with
          objects := Function.update w.server.objects (Blake3.ofArchive body) (some body) }
        puts := (Blake3.ofArchive body, Blake3.packedLen body) :: w.puts }
  | .insertRow hash bytes now =>
      { w with
        server := { w.server with db := w.server.db.recordBlob hash bytes now }
        puts := w.puts.erase (hash, bytes) }
  | .checkObject request =>
      if w.server.blobExists request.req.blobHash then
        { w with checked := request :: w.checked }
      else w
  | .commitVersion request id now =>
      { w with
        server := { w.server with
          db := (w.server.db.createVersion request.account request.gameId request.req id now).1 }
        checked := w.checked.erase request }
  | .deleteVersion row =>
      match w.server.db.deleteVersionTx row.id row.blobHash with
      | .ok (db, gone) =>
          { w with
            server := { w.server with db }
            unlink := if gone then some row.blobHash else none }
      | .error _ => w
  | .unlinkObject hash =>
      { w with
        server := { w.server with objects := Function.update w.server.objects hash none }
        unlink := none }

/-- The row of an upload is inserted only if it is there already, or if its object is
still there and the retention run is not about to unlink it. -/
def Undisturbed (w : BlobWorld) : BlobEvent → Prop
  | .insertRow hash _ _ =>
      w.server.db.Recorded hash ∨ w.server.blobExists hash = true ∧ w.unlink ≠ some hash
  | _ => True

instance (w : BlobWorld) : ∀ ev, Decidable (w.Undisturbed ev)
  | .insertRow hash _ _ =>
      inferInstanceAs (Decidable (w.server.db.Recorded hash ∨
        w.server.blobExists hash = true ∧ w.unlink ≠ some hash))
  | .writeObject _ | .checkObject _ | .commitVersion _ _ _ | .deleteVersion _
  | .unlinkObject _ => isTrue trivial

end BlobWorld

/-- One step of one handler. -/
def BlobStep [Blake3] : BlobWorld → BlobEvent → BlobWorld → Prop :=
  guarded BlobWorld.Enabled BlobWorld.next

/-! ### The handlers without a break -/

/-- `delete_version_and_deref` is its transaction and then the unlinking. -/
theorem Server.deleteVersionAndDeref_eq (s : Server) (id : VersionId) (hash : Blake3Hash)
    (stats : GcStats) :
    s.deleteVersionAndDeref id hash stats =
      match s.db.deleteVersionTx id hash with
      | .error e => .error e
      | .ok (db, true) =>
          .ok ({ db, objects := Function.update s.objects hash none },
            { versionsPruned := stats.versionsPruned + 1
              blobsDeleted := stats.blobsDeleted + 1 })
      | .ok (db, false) =>
          .ok ({ s with db }, { stats with versionsPruned := stats.versionsPruned + 1 }) := by
  unfold deleteVersionAndDeref Db.deleteVersionTx
  dsimp only
  split_ifs <;> rfl

section Steps

variable [Blake3] {w w' w₀ : BlobWorld} {trace : List BlobEvent}

theorem blobPut_eq_steps (w : BlobWorld) (body : Archive) (now : Timestamp) :
    ((w.next (.writeObject body)).next
        (.insertRow (Blake3.ofArchive body) (Blake3.packedLen body) now)).server =
      (w.server.blobPut (Blake3.ofArchive body) body now).1 := by
  simp [BlobWorld.next, Server.blobPut]

theorem createVersion_eq_steps (w : BlobWorld) (auth : Authed) (gameId : GameId)
    (req : CreateVersion) (id : VersionId) (now : Timestamp)
    (found : w.server.blobExists req.blobHash = true) :
    ((w.next (.checkObject ⟨auth.accountId, gameId, req⟩)).next
        (.commitVersion ⟨auth.accountId, gameId, req⟩ id now)).server =
      (w.server.createVersion auth gameId req id now).1 := by
  simp [BlobWorld.next, Server.createVersion, found]

/-- A deletion is the transaction and then, where it is due, the removal of the object. -/
theorem deleteVersionAndDeref_eq_steps (w : BlobWorld) (row : VersionRow) (stats : GcStats)
    {s : Server} {stats' : GcStats}
    (hok : w.server.deleteVersionAndDeref row.id row.blobHash stats = .ok (s, stats')) :
    ((w.next (.deleteVersion row)).unlink = none ∧ (w.next (.deleteVersion row)).server = s) ∨
    ∃ hash, (w.next (.deleteVersion row)).unlink = some hash ∧
      ((w.next (.deleteVersion row)).next (.unlinkObject hash)).server = s := by
  rw [Server.deleteVersionAndDeref_eq] at hok
  cases htx : w.server.db.deleteVersionTx row.id row.blobHash with
  | error e => simp [htx] at hok
  | ok r =>
      obtain ⟨db, gone⟩ := r
      cases gone with
      | false =>
          simp only [htx, Except.ok.injEq, Prod.mk.injEq] at hok
          exact Or.inl (by simp [BlobWorld.next, htx, hok.1])
      | true =>
          simp only [htx, Except.ok.injEq, Prod.mk.injEq] at hok
          exact Or.inr ⟨row.blobHash, by simp [BlobWorld.next, htx, hok.1]⟩

/-! ### What the steps keep -/

omit [Blake3] in
/-- When the transaction reports the object as gone, its row is. -/
theorem deleteVersionTx_gone {db db' : Db} {id : VersionId} {hash : Blake3Hash}
    (hok : db.deleteVersionTx id hash = .ok (db', true)) : ¬ db'.Recorded hash := by
  unfold Db.deleteVersionTx at hok
  dsimp only at hok
  split_ifs at hok
  · simp only [Except.ok.injEq, Prod.mk.injEq, and_true] at hok
    rintro ⟨b, hb, hbhash⟩
    rw [← hok] at hb
    obtain ⟨-, hne⟩ := List.mem_filter.mp hb
    simp [hbhash] at hne
  · simp at hok

omit [Blake3] in
/-- **Everything the transaction can do.** -/
theorem deleteVersionTx_cases {db : Db} (wf : db.WF) {row : VersionRow}
    (hrow : row ∈ db.versions) :
    (∃ e, db.deleteVersionTx row.id row.blobHash = .error e) ∨
    ∃ db' gone, db.deleteVersionTx row.id row.blobHash = .ok (db', gone) ∧ db'.WF ∧
      (∀ hash, db'.Recorded hash → db.Recorded hash) ∧
      (gone = true → ¬ db'.Recorded row.blobHash) := by
  by_cases hhead : ∃ g ∈ db.games, g.head = some row.id
  · have hany : db.games.any (fun g => g.head = some row.id) = true := by simpa using hhead
    exact Or.inl ⟨.internal "FOREIGN KEY constraint failed", by simp [Db.deleteVersionTx, hany]⟩
  · push Not at hhead
    obtain ⟨s', stats', hok, pruned⟩ := Server.deleteVersionAndDeref_spec
      (s := ⟨db, fun _ => none⟩) wf hrow hhead default
    rw [Server.deleteVersionAndDeref_eq] at hok
    refine Or.inr ?_
    cases htx : db.deleteVersionTx row.id row.blobHash with
    | error e => simp [htx] at hok
    | ok r =>
        obtain ⟨db', gone⟩ := r
        have hdb : s'.db = db' := by
          cases gone with
          | false =>
              simp only [htx, Except.ok.injEq, Prod.mk.injEq] at hok
              rw [← hok.1]
          | true =>
              simp only [htx, Except.ok.injEq, Prod.mk.injEq] at hok
              rw [← hok.1]
        refine ⟨db', gone, rfl, hdb ▸ pruned.wf, ?_, ?_⟩
        · intro hash hrec
          exact ((pruned.recorded hash).mp (hdb ▸ hrec)).1
        · rintro rfl
          exact deleteVersionTx_gone htx

/-- Every blob row has its object, and the retention run is not about to unlink it. -/
structure BlobWorld.Shelved (w : BlobWorld) : Prop where
  wf : w.server.db.WF
  shelved : ∀ hash, w.server.db.Recorded hash →
    w.server.blobExists hash = true ∧ w.unlink ≠ some hash

omit [Blake3] in
theorem BlobWorld.New.shelved (new : w.New) : w.Shelved where
  wf := new.fresh.wf
  shelved hash hrec := ⟨new.stored hash hrec, by simp [new.unlink]⟩

/-- An undisturbed step leaves every referenced object on its shelf. -/
theorem BlobWorld.Shelved.step (h : w.Shelved) {ev : BlobEvent}
    (step : under BlobStep BlobWorld.Undisturbed w ev w') : w'.Shelved := by
  obtain ⟨⟨enabled, rfl⟩, undisturbed⟩ := step
  cases ev with
  | writeObject body =>
      refine ⟨h.wf, fun hash hrec => ⟨?_, (h.shelved hash hrec).2⟩⟩
      by_cases heq : hash = Blake3.ofArchive body
      · simp [next, Server.blobExists, heq]
      · simpa [next, Server.blobExists, heq] using (h.shelved hash hrec).1
  | insertRow hash bytes now =>
      refine ⟨h.wf.recordBlob hash bytes, fun hash' hrec => ?_⟩
      rcases Db.exists_blob_recordBlob.mp hrec with rfl | hrec
      · rcases undisturbed with hrec | hobject
        · exact h.shelved hash hrec
        · exact hobject
      · exact h.shelved hash' hrec
  | checkObject request =>
      rw [next]
      split
      · exact ⟨h.wf, h.shelved⟩
      · exact h
  | commitVersion request id now =>
      have hwf : TxStep w.server.db _ _ := TxStep.create
        ⟨request.account, request.gameId, request.req, id, now⟩ ⟨enabled.2.1, enabled.2.2⟩
      refine ⟨hwf.wf h.wf, fun hash hrec => h.shelved hash ?_⟩
      rcases Db.createVersion_cases h.wf request.account request.gameId now enabled.2.1 with
        ⟨e, -, heq⟩ | ⟨game, -, -, -, -, heq⟩
      · simpa [next, heq] using hrec
      · simpa [next, heq, Db.created, Db.Recorded] using hrec
  | deleteVersion row =>
      obtain ⟨hnone, hrow⟩ := enabled
      rcases deleteVersionTx_cases h.wf hrow with
        ⟨e, htx⟩ | ⟨db', gone, htx, wf', hsub, hgone⟩
      · simpa only [next, htx] using h
      · simp only [next, htx]
        refine ⟨wf', fun hash hrec => ⟨(h.shelved hash (hsub hash hrec)).1, ?_⟩⟩
        cases gone with
        | false => simp
        | true =>
            -- the row of the unlinked object went in the same transaction
            intro heq
            obtain rfl : row.blobHash = hash := by simpa using heq
            exact hgone rfl hrec
  | unlinkObject hash =>
      refine ⟨h.wf, fun hash' hrec => ⟨?_, by simp [next]⟩⟩
      obtain ⟨hobject, hne⟩ := h.shelved hash' hrec
      have hother : hash' ≠ hash := by
        rintro rfl
        exact hne enabled
      simpa [next, Server.blobExists, hother] using hobject

/-- **A stored version keeps its archive.**  For every interleaving of the steps of
uploads, version requests and one retention run in which no row is inserted for an
object that was unlinked since it was written, or that the retention run is about to
unlink: in every state reached, every version has its blob row and its object. -/
theorem versions_keep_archives (new : w₀.New)
    (run : Run (under BlobStep BlobWorld.Undisturbed) w₀ trace w) :
    ∀ v ∈ w.server.db.versions,
      w.server.db.Recorded v.blobHash ∧ w.server.blobExists v.blobHash = true := by
  have shelved : w.Shelved :=
    run.invariant (I := BlobWorld.Shelved) (fun _ _ _ h step => h.step step) new.shelved
  intro v hv
  have hrec := shelved.wf.blobStored v hv
  exact ⟨hrec, (shelved.shelved _ hrec).1⟩

end Steps

/-! ### A version that loses its archive -/

section Example

local instance raceDigest : Blake3 := plainDigest

/-- One account that keeps one full, with one game and one device, so that a second full is
enough for the retention to drop the first. -/
def emptyBlobWorld : BlobWorld where
  server :=
    { db :=
        { accounts := [1]
          devices := [⟨21, 1, "pc21", .linux, "", none, false⟩]
          blobs := []
          games := [⟨10, 1, "Game", none, none⟩]
          versions := []
          config := [⟨1, "tag", { (default : SyncedConfig) with retention := ⟨1, 1⟩ }⟩]
          resolvedConflicts := [] }
      objects := fun _ => none }
  puts := []
  checked := []
  unlink := none

theorem emptyBlobWorld_new : emptyBlobWorld.New :=
  ⟨⟨by decide, by decide, by decide, by decide, rfl, by decide, by decide⟩,
    fun hash hrec => by simp [Db.Recorded, emptyBlobWorld] at hrec, rfl⟩

/-- The archive packed at a time. -/
def archiveAt (time : Timestamp) : Archive where
  metadata :=
    { gameId := 10, deviceId := 21, parent := none, kind := .full, files := [],
      deletions := [], createdAt := time }
  payload := []
  registry := none

/-- The request for a full backup with the archive packed at `time`. -/
def fullRequest (time : Timestamp) (parent : Option VersionId) : VersionRequest where
  account := 1
  gameId := 10
  req :=
    { parent, kind := .full, files := [], blobHash := Blake3.ofArchive (archiveAt time),
      bytes := Blake3.packedLen (archiveAt time), deviceId := 21 }

/-- One upload from its first step to its last. -/
def uploadSteps (time : Timestamp) (parent : Option VersionId) (id : VersionId) :
    List BlobEvent :=
  [.writeObject (archiveAt time),
   .insertRow (Blake3.ofArchive (archiveAt time)) (Blake3.packedLen (archiveAt time)) 0,
   .checkObject (fullRequest time parent),
   .commitVersion (fullRequest time parent) id 0]

/-- The row of the first of two uploads, as the retention run reads it. -/
def firstRow : VersionRow where
  id := 101
  gameId := 10
  deviceId := 21
  parent := none
  kind := .full
  files := []
  blobHash := Blake3.ofArchive (archiveAt 1)
  bytes := Blake3.packedLen (archiveAt 1)
  seq := 1
  createdAt := 0
  accountId := 1

/-- Two versions were uploaded, the second on top of the first. -/
def afterUploads : BlobWorld :=
  (uploadSteps 1 none 101 ++ uploadSteps 2 (some 101) 102).foldl BlobWorld.next emptyBlobWorld

/-- The retention run deletes the first version; before it unlinks the object, the
same archive is uploaded again and named by a third version. -/
def reuploadDuringGc : List BlobEvent :=
  uploadSteps 1 none 101 ++ uploadSteps 2 (some 101) 102 ++ [.deleteVersion firstRow] ++
    uploadSteps 1 (some 102) 103 ++ [.unlinkObject (Blake3.ofArchive (archiveAt 1))]

/-- The same, with the object unlinked before the upload. -/
def reuploadAfterGc : List BlobEvent :=
  uploadSteps 1 none 101 ++ uploadSteps 2 (some 101) 102 ++ [.deleteVersion firstRow] ++
    [.unlinkObject (Blake3.ofArchive (archiveAt 1))] ++ uploadSteps 1 (some 102) 103

/-- The first version is one that retention prunes, and the run leaves the third
without its object. -/
theorem reupload_during_gc_loses_archive :
    emptyBlobWorld.New ∧
      firstRow ∈ afterUploads.server.db.versions ∧
      Db.gcVersion firstRow ∉ afterUploads.server.db.keptVersions 1 10
        (afterUploads.server.db.head 1 10) (afterUploads.server.db.configRetention 1)
        (afterUploads.server.db.gcVersions 1 10) ∧
      Run BlobStep emptyBlobWorld reuploadDuringGc
        (reuploadDuringGc.foldl BlobWorld.next emptyBlobWorld) ∧
      ∃ v ∈ (reuploadDuringGc.foldl BlobWorld.next emptyBlobWorld).server.db.versions,
        v.id = 103 ∧
        (reuploadDuringGc.foldl BlobWorld.next emptyBlobWorld).server.blobExists
          v.blobHash = false := by
  refine ⟨emptyBlobWorld_new, by decide +kernel, by decide +kernel, ?_, by decide +kernel⟩
  exact Run.of_enabled (by decide +kernel)

/-- With the unlinking before the upload the third version keeps its archive. -/
theorem reupload_after_gc_keeps_archive :
    ∃ v ∈ (reuploadAfterGc.foldl BlobWorld.next emptyBlobWorld).server.db.versions,
      v.id = 103 ∧
        (reuploadAfterGc.foldl BlobWorld.next emptyBlobWorld).server.blobExists
          v.blobHash = true := by
  have run : Run (under BlobStep BlobWorld.Undisturbed) emptyBlobWorld reuploadAfterGc
      (reuploadAfterGc.foldl BlobWorld.next emptyBlobWorld) :=
    Run.under_of_enabled (Run.of_enabled (by decide +kernel))
  obtain ⟨v, hv, hid⟩ : ∃ v ∈ (reuploadAfterGc.foldl BlobWorld.next
      emptyBlobWorld).server.db.versions, v.id = 103 := by decide +kernel
  exact ⟨v, hv, hid, (versions_keep_archives emptyBlobWorld_new run v hv).2⟩

end Example

end Savr
