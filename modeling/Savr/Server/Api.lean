import Savr.Server.Invariant

/-!
# The server behind its API

The database together with the content-addressed blob store, and the handlers of
`savr-server/src/api.rs` that devices back up and resolve conflicts through.
Each handler also says which messages it pushes to the connected devices.

Authentication has already happened: a handler is given the account and the
device it authenticated.
-/

namespace Savr

/-- The server's persistent state.  An object of the blob store holds a packed
archive. -/
structure Server where
  db : Db
  objects : Blake3Hash → Option Archive

/-- The device a request was authenticated as. -/
structure Authed where
  accountId : AccountId
  deviceId : DeviceId
  deriving DecidableEq, Repr

/-- A message pushed to connected devices. -/
inductive ServerMsg
  | versionAvailable (gameId : GameId) (versionId : VersionId) (seq : ℕ)
  | conflict (gameId : GameId) (tips : List VersionId)
  | configUpdated (configTag : String)
  | deviceAdded (deviceId : DeviceId)
  deriving DecidableEq, Repr

/-- A push: to every device of the account, or to all but one. -/
structure Broadcast where
  accountId : AccountId
  except : Option DeviceId
  msg : ServerMsg
  deriving DecidableEq, Repr

/-- The device receives the push. -/
def Broadcast.reaches (b : Broadcast) (account : AccountId) (device : DeviceId) : Bool :=
  b.accountId = account && b.except ≠ some device

namespace Server

/-- `HEAD /blobs/{hash}`. -/
def blobExists (s : Server) (hash : Blake3Hash) : Bool :=
  (s.objects hash).isSome

/-- `PUT /blobs/{hash}`: store the object if its content has the declared hash,
and record it.  The reply says whether it was there already. -/
def blobPut [Blake3] (s : Server) (hash : Blake3Hash) (body : Archive) (now : Timestamp) :
    Server × Except ApiError Bool :=
  if Blake3.ofArchive body = hash then
    ({ db := s.db.recordBlob hash (Blake3.packedLen body) now
       objects := Function.update s.objects hash (some body) },
      .ok (s.blobExists hash))
  else (s, .error (.hashMismatch hash (Blake3.ofArchive body)))

/-- The messages `create_version` pushes for an outcome. -/
def createBroadcasts (account : AccountId) (gameId : GameId) : Advance → List Broadcast
  | .fastForward v =>
      [{ accountId := account, except := some v.deviceId,
         msg := .versionAvailable gameId v.id v.seq }]
  | .conflict head incoming =>
      [{ accountId := account, except := none,
         msg := .conflict gameId ((head.map Version.id).toList ++ [incoming.id]) }]

/-- `POST /games/{id}/versions`. The object has to be there before anything is written, and
what is pushed depends on the outcome. -/
def createVersion (s : Server) (auth : Authed) (gameId : GameId) (req : CreateVersion)
    (id : VersionId) (now : Timestamp) :
    Server × Except ApiError Advance × List Broadcast :=
  if s.blobExists req.blobHash then
    let (db, reply) := s.db.createVersion auth.accountId gameId req id now
    ({ s with db }, reply,
      match reply with
      | .ok advance => createBroadcasts auth.accountId gameId advance
      | .error _ => [])
  else (s, .error (.blobMissing req.blobHash), [])

/-- `POST /games/{id}/resolve`. The winner is announced as if it had just been uploaded, with
the `seq` it has. -/
def resolve (s : Server) (auth : Authed) (gameId : GameId) (winner : VersionId)
    (keepBoth : Bool) (id : Uuid) (now : Timestamp) :
    Server × Except ApiError HeadResponse × List Broadcast :=
  let (db, reply) := s.db.resolveConflict auth.accountId gameId winner keepBoth id now
  match reply with
  | .ok (head, seq) =>
      ({ s with db }, .ok head,
        head.head.toList.map fun versionId =>
          { accountId := auth.accountId, except := some auth.deviceId,
            msg := .versionAvailable gameId versionId seq })
  | .error e => ({ s with db }, .error e, [])

/-- `GET /blobs/{hash}`: only a blob the account references is served. -/
def blobGet (s : Server) (account : AccountId) (hash : Blake3Hash) :
    Except ApiError Archive :=
  if s.db.versions.any fun v => v.blobHash = hash && v.accountId = account then
    match s.objects hash with
    | some body => .ok body
    | none => .error (.notFound "blob")
  else .error (.notFound "blob")

end Server

end Savr
