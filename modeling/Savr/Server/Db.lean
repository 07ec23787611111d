import Savr.Core.Types
import Savr.Lib.Ranked

/-!
# The server database

The tables of `savr-server/migrations` and the transactions of
`savr-server/src/db.rs` that create versions and move heads.

A table is the list of its rows.  A statement that a constraint rejects fails the
transaction it belongs to, and a failed transaction leaves the database as it
was.  Foreign keys are enforced, as migration 0001 has it; a self-reference is
satisfied by the row it is inserted with.

Values the server draws itself (fresh UUIDs, the current time) are arguments.
-/

namespace Savr

/-- A row of `devices`. A revoked device keeps its row, since versions refer to it. -/
structure DeviceRow where
  id : DeviceId
  accountId : AccountId
  name : String
  os : Os
  tokenHash : String
  lastSeen : Option Timestamp
  revoked : Bool
  deriving DecidableEq, Repr

/-- A row of `blobs`. -/
structure BlobRow where
  hash : Blake3Hash
  bytes : ℕ
  refcount : ℤ
  createdAt : Timestamp
  deriving DecidableEq, Repr

/-- A row of `games`. -/
structure GameRow where
  id : GameId
  accountId : AccountId
  title : String
  steamAppid : Option ℕ
  head : Option VersionId
  deriving DecidableEq, Repr

/-- A row of `versions`: the version and the account that owns it. -/
structure VersionRow extends Version where
  accountId : AccountId
  deriving DecidableEq, Repr

/-- A row of `resolved_conflicts`. Retention does not protect a version that lost a conflict. -/
structure ResolvedConflictRow where
  id : Uuid
  accountId : AccountId
  gameId : GameId
  winner : VersionId
  loser : VersionId
  keepBoth : Bool
  redirect : Option String
  resolvedAt : Timestamp
  deriving DecidableEq, Repr

/-- A row of `config`; `data` is the document in `data_json`. -/
structure ConfigRow where
  accountId : AccountId
  tag : String
  data : SyncedConfig
  deriving DecidableEq, Repr

/-- The stored config: the column is authoritative for the tag. -/
def ConfigRow.config (row : ConfigRow) : SyncedConfig :=
  row.data.withTag row.tag

/-- The part of the document the server itself reads. -/
def ConfigRow.retention (row : ConfigRow) : Retention :=
  row.config.retention

/-- The database, table by table. What the schema asks of the rows is not part of it: the
statements check it, and `Db.WF` says what follows. -/
structure Db where
  accounts : List AccountId
  devices : List DeviceRow
  blobs : List BlobRow
  games : List GameRow
  versions : List VersionRow
  config : List ConfigRow
  resolvedConflicts : List ResolvedConflictRow
  deriving DecidableEq, Repr

/-- `ApiError`, by its constructors. Errors of the database end up in `internal`, with their
message. -/
inductive ApiError
  | internal (message : String)
  | notFound (what : String)
  | badRequest (message : String)
  | hashMismatch (expected got : Blake3Hash)
  | blobMissing (hash : Blake3Hash)
  | conflict (head : Option VersionId) (incoming : VersionId)
  | configConflict (currentTag : String)
  deriving DecidableEq, Repr

/-- The status code of the response. The client tells conflicts from other refusals by it. -/
def ApiError.status : ApiError → ℕ
  | internal _ => 500
  | notFound _ => 404
  | badRequest _ => 400
  | hashMismatch _ _ => 400
  | blobMissing _ => 422
  | conflict _ _ => 409
  | configConflict _ => 409

/-- Outcome of a version upload against the head of its game. -/
inductive Advance
  /-- The parent was the head: the head moved to the new version. -/
  | fastForward (version : Version)
  /-- The parent was not the head: the version is stored as a divergent branch
  and the head is unchanged. -/
  | conflict (head : Option Version) (incoming : Version)
  deriving DecidableEq, Repr

/-- The version the reply is about. -/
def Advance.version : Advance → Version
  | .fastForward v => v
  | .conflict _ incoming => incoming

/-- Both outcomes are about the uploaded version. -/
@[simp] theorem Advance.version_ite (p : Prop) [Decidable p] (head : Option Version)
    (v : Version) : (if p then fastForward v else conflict head v).version = v := by
  split <;> rfl

/-- The head of a game with its place in the history. -/
structure HeadResponse where
  head : Option VersionId
  seq : Option ℕ
  deriving DecidableEq, Repr

namespace Db

/-! ### Queries -/

/-- The game row a statement with `id = ? AND account_id = ?` sees. -/
def findGame (db : Db) (account : AccountId) (gameId : GameId) : Option GameRow :=
  db.games.find? fun g => g.id = gameId ∧ g.accountId = account

/-- The head of a game, `none` also for an unknown game. -/
def head (db : Db) (account : AccountId) (gameId : GameId) : Option VersionId :=
  (db.findGame account gameId).bind GameRow.head

/-- The rows of one game of one account, in table order. -/
def gameRows (db : Db) (account : AccountId) (gameId : GameId) : List VersionRow :=
  db.versions.filter fun v => v.gameId = gameId ∧ v.accountId = account

/-- `COALESCE(MAX(seq), 0) + 1` over the rows of a game. -/
def nextSeq (db : Db) (gameId : GameId) : ℕ :=
  ((db.versions.filter fun v => v.gameId = gameId).map fun v => v.seq).foldr max 0 + 1

/-- `SELECT … FROM versions WHERE id = ?`, with `fetch_one`. -/
def loadVersion (db : Db) (id : VersionId) : Except ApiError Version :=
  match db.versions.find? fun v => v.id = id with
  | some row => .ok row.toVersion
  | none =>
      .error (.internal "no rows returned by a query that expected to return at least one row")

/-- `ORDER BY seq DESC`. -/
def listVersions (db : Db) (account : AccountId) (gameId : GameId) : List Version :=
  (RankedList.sortBy (fun v => v.seq) (db.gameRows account gameId)).reverse.map
    VersionRow.toVersion

/-! ### Statements -/

/-- The primary key and `UNIQUE(game_id, seq)` admit the row. -/
def uniqueOk (db : Db) (row : VersionRow) : Bool :=
  db.versions.all fun v => v.id ≠ row.id ∧ ¬ (v.gameId = row.gameId ∧ v.seq = row.seq)

/-- Every foreign key of the row finds its target. -/
def foreignKeysOk (db : Db) (row : VersionRow) : Bool :=
  db.games.any (fun g => g.id = row.gameId) &&
  db.devices.any (fun d => d.id = row.deviceId) &&
  (match row.parent with
    | none => true
    | some p => p = row.id ∨ db.versions.any fun v => v.id = p) &&
  db.blobs.any (fun b => b.hash = row.blobHash)

/-- `INSERT INTO versions`. -/
def insertVersion (db : Db) (row : VersionRow) : Except ApiError Db :=
  if db.uniqueOk row then
    if db.foreignKeysOk row then .ok { db with versions := db.versions ++ [row] }
    else .error (.internal "FOREIGN KEY constraint failed")
  else .error (.internal "UNIQUE constraint failed")

/-- `UPDATE blobs SET refcount = refcount + delta WHERE hash = ?`, for one row. -/
def addRef (hash : Blake3Hash) (delta : ℤ) (b : BlobRow) : BlobRow :=
  if b.hash = hash then { b with refcount := b.refcount + delta } else b

/-- `UPDATE blobs SET refcount = refcount + ?`. -/
def addRefcount (db : Db) (hash : Blake3Hash) (delta : ℤ) : Db :=
  { db with blobs := db.blobs.map (addRef hash delta) }

/-- `INSERT OR IGNORE INTO blobs`, as `blob_put` records an uploaded object. -/
def recordBlob (db : Db) (hash : Blake3Hash) (bytes : ℕ) (now : Timestamp) : Db :=
  if db.blobs.any (fun b => b.hash = hash) then db
  else
    { db with blobs := db.blobs ++ [{ hash, bytes, refcount := 0, createdAt := now }] }

/-- The row condition of the head update: `id = ? AND account_id = ? AND head IS ?`. -/
def casMatches (account : AccountId) (gameId : GameId) (expected : Option VersionId)
    (g : GameRow) : Bool :=
  g.id = gameId ∧ g.accountId = account ∧ g.head = expected

/-- The game rows after the head update. -/
def casGames (account : AccountId) (gameId : GameId) (expected : Option VersionId)
    (new : VersionId) (games : List GameRow) : List GameRow :=
  games.map fun g =>
    if casMatches account gameId expected g then { g with head := some new } else g

/-- `UPDATE games SET head = ? WHERE id = ? AND account_id = ? AND head IS ?`, with
the number of rows it affected. -/
def casHead (db : Db) (account : AccountId) (gameId : GameId)
    (expected : Option VersionId) (new : VersionId) : Db × ℕ :=
  ({ db with games := casGames account gameId expected new db.games },
    db.games.countP (casMatches account gameId expected))

/-! ### `create_version` -/

/-- The row `create_version` inserts. It is as the request says, but for its id, its `seq`
and its time. -/
def newRow (db : Db) (account : AccountId) (gameId : GameId) (req : CreateVersion)
    (id : VersionId) (now : Timestamp) : VersionRow where
  id := id
  gameId := gameId
  deviceId := req.deviceId
  parent := req.parent
  kind := req.kind
  files := req.files
  blobHash := req.blobHash
  bytes := req.bytes
  seq := db.nextSeq gameId
  createdAt := now
  accountId := account

/-- The transaction of `create_version`: the new state, whether the head
advanced, and the head read before the compare-and-swap. -/
def createVersionTx (db : Db) (account : AccountId) (gameId : GameId) (req : CreateVersion)
    (id : VersionId) (now : Timestamp) : Except ApiError (Db × Bool × Option VersionId) := do
  let db₁ ← db.insertVersion (db.newRow account gameId req id now)
  let db₂ := db₁.addRefcount req.blobHash 1
  match db₂.findGame account gameId with
  | none =>
      -- the prior head is read with `fetch_one`: a game of another account ends here
      .error (.internal "no rows returned by a query that expected to return at least one row")
  | some game =>
      let (db₃, affected) := db₂.casHead account gameId req.parent id
      .ok (db₃, affected = 1, game.head)

/-- Insert a version and try to advance the head in one transaction, then read
back what is reported. -/
def createVersion (db : Db) (account : AccountId) (gameId : GameId) (req : CreateVersion)
    (id : VersionId) (now : Timestamp) : Db × Except ApiError Advance :=
  match db.createVersionTx account gameId req id now with
  | .error e => (db, .error e)
  | .ok (db', advanced, prevHead) =>
      (db', do
        let incoming ← db'.loadVersion id
        if advanced then .ok (.fastForward incoming)
        else
          match prevHead with
          | some h => do
              let headVersion ← db'.loadVersion h
              .ok (.conflict (some headVersion) incoming)
          | none => .ok (.conflict none incoming))

/-! ### `resolve_conflict` -/

/-- The sibling-folder note of a "keep both" resolution. -/
def redirectNote (keepBoth : Bool) (loser : VersionId) : Option String :=
  if keepBoth then some ("restore-conflict-" ++ String.ofList ((Uuid.text loser).toList.take 8))
  else none

/-- The rows the transaction records: the replaced head loses, unless it is the
winner itself. -/
def loserRows (account : AccountId) (gameId : GameId) (winner : VersionId) (keepBoth : Bool)
    (id : Uuid) (now : Timestamp) : Option VersionId → List ResolvedConflictRow
  | none => []
  | some loser =>
      if loser = winner then []
      else
        [{ id, accountId := account, gameId, winner, loser, keepBoth,
           redirect := redirectNote keepBoth loser, resolvedAt := now }]

/-- Set `winner` as the new head and record the replaced head as the loser. Any version of
the game may win. -/
def resolveConflict (db : Db) (account : AccountId) (gameId : GameId) (winner : VersionId)
    (keepBoth : Bool) (id : Uuid) (now : Timestamp) :
    Db × Except ApiError (HeadResponse × ℕ) :=
  match db.findGame account gameId with
  | none => (db, .error (.notFound "game"))
  | some game =>
      match (db.gameRows account gameId).find? fun v => v.id = winner with
      | none => (db, .error (.notFound "winner version"))
      | some row =>
          -- the expected head is the one just read in this transaction
          let (db', affected) := db.casHead account gameId game.head winner
          if affected = 1 then
            ({ db' with
                resolvedConflicts := db'.resolvedConflicts ++
                  loserRows account gameId winner keepBoth id now game.head },
              .ok ({ head := some winner, seq := some row.seq }, row.seq))
          else (db, .error (.conflict game.head winner))

end Db

end Savr
