import Savr.Core.Ipc
import Savr.Daemon.Engine
import Savr.Daemon.Watcher

/-!
# Messages between the daemon and the app

The messages of `savr-core/src/ipc.rs`, and `Engine::handle_request` of
`savr-daemon/src/engine.rs` up to the operations it calls: `Operations` is what they return.

## Main results

* `Expects.handleRequest` — what a request can be answered with.
-/

namespace Savr

/-! ## Shared value types -/

/-- What a root of games is. -/
inductive RootKind
  | steam
  | drive
  | emulator
  | launcher
  deriving DecidableEq, Repr

/-- A root, as the app asks for it. -/
structure RootSpec where
  kind : RootKind
  path : String
  deriving DecidableEq, Repr

/-- A root, as the daemon stores it. -/
structure Root where
  id : Uuid
  kind : RootKind
  path : String
  deriving DecidableEq, Repr

/-- A hand-registered game not found in any Steam library. -/
structure CustomGameSpec where
  title : String
  installPath : Option String
  saveRoot : String
  includeGlobs : List String
  excludeGlobs : List String
  deriving DecidableEq, Repr

/-- Daemon health for the dashboard of the app. The operations give it as a whole. -/
structure DaemonStatus where
  version : String
  uptimeS : ℕ
  rssBytes : ℕ
  watchedGames : ℕ
  serverConnected : Bool
  lastBackupAt : Option Timestamp
  pendingOutbox : ℕ
  autostartEnabled : Bool
  deriving DecidableEq, Repr

namespace Ipc

/-! ## Requests and responses -/

/-- The requests of the app. A connection may carry any number of them, one after the other. -/
inductive GuiRequest
  | listGames
  | listRoots
  | addRoot (spec : RootSpec)
  | removeRoot (id : Uuid)
  | backupNow (gameId : GameId)
  | listVersions (gameId : GameId)
  | restore (gameId : GameId) (versionId : VersionId)
  | resolveConflict (gameId : GameId) (choice : ResolveChoice)
  | getStatus
  | getConfig
  | updateConfig (config : SyncedConfig)
  | enterLearnMode (gameId : GameId)
  | pairDevice (serverUrl code deviceName : String)
  | setAutostart (enabled : Bool)
  | addCustomGame (spec : CustomGameSpec)
  | removeCustomGame (title : String)
  | getLogs (maxLines : ℕ)
  /-- Ask the daemon to shut down. -/
  | shutdown
  deriving DecidableEq, Repr

/-- What the daemon sends: the replies, and the events that come in between them. -/
inductive DaemonMsg
  | games (games : List Game)
  | versions (versions : List Version)
  | roots (roots : List Root)
  | logs (lines : List String)
  | status (status : DaemonStatus)
  | config (config : SyncedConfig)
  | event (event : DetectionEvent)
  | conflictRaised (gameId : GameId) (tips : List VersionId)
  | paired (deviceId : Uuid)
  | ok
  | error (message : String)
  deriving DecidableEq, Repr

/-- An answer to a request, and no pushed event. -/
def DaemonMsg.isReply : DaemonMsg → Bool
  | .event _ => false
  | _ => true

/-! ## Dispatch -/

/-- What `run_backup` comes to in `backup_now`. -/
inductive BackupResult
  /-- The game is not in the catalog. -/
  | unknownGame
  | conflict (head : Option VersionId) (incoming : VersionId)
  /-- Uploaded, queued, or no change. -/
  | done
  | failed (message : String)

/-- What `Engine::restore` and `Engine::resolve_conflict` come to. -/
inductive GameResult
  /-- The game is not in the catalog, or has no pending conflict. -/
  | unknownGame
  | done
  | failed (message : String)

/-- What the operations that the dispatch calls return for one request. Each request calls
the ones of its own branch, so the others may be anything. -/
structure Operations where
  games : List Game
  roots : Except String (List Root)
  addRoot : Except String Unit
  removeRoot : Except String Unit
  backup : BackupResult
  versions : Except String (List Version)
  restored : GameResult
  resolved : GameResult
  status : DaemonStatus
  /-- `state.synced_config()`, if it can be read. -/
  config : Option SyncedConfig
  /-- Storing the config, or the one that the server returns. -/
  updated : Except String Unit
  /-- The device id, where pairing succeeds and the credential is stored. -/
  paired : Except String Uuid
  autostart : Except String Unit
  addCustom : Except String Unit
  removeCustom : Except String Unit
  logs : List String

/-- Nothing is there, and nothing fails. -/
instance : Inhabited Operations where
  default :=
    { games := [], roots := .ok [], addRoot := .ok (), removeRoot := .ok (), backup := .done
      versions := .ok [], restored := .done, resolved := .done
      status := ⟨"", 0, 0, 0, false, none, 0, false⟩
      config := none, updated := .ok (), paired := .ok 0, autostart := .ok ()
      addCustom := .ok (), removeCustom := .ok (), logs := [] }

/-- `Ok(_) => DaemonMsg::Ok, Err(e) => err(e)`. -/
def done (result : Except String Unit) : DaemonMsg :=
  match result with
  | .ok _ => .ok
  | .error e => .error e

/-- `record_conflict`. -/
def recordConflict (gameId : GameId) (theirs : Option VersionId) (mine : VersionId) :
    DaemonMsg :=
  .conflictRaised gameId [theirs.getD mine, mine]

/-- `handle_request`: the reply to each request, from what the engine answers. A backup that
ends in a conflict records it, and answers with its two tips. -/
def handleRequest (ops : Operations) : GuiRequest → DaemonMsg
  | .listGames => .games ops.games
  | .listRoots =>
      match ops.roots with
      | .ok roots => .roots roots
      | .error e => .error e
  | .addRoot _ => done ops.addRoot
  | .removeRoot _ => done ops.removeRoot
  | .backupNow gameId =>
      match ops.backup with
      | .unknownGame => .error ("unknown game " ++ Uuid.text gameId)
      | .conflict head incoming => recordConflict gameId head incoming
      | .done => .ok
      | .failed e => .error e
  | .listVersions _ =>
      match ops.versions with
      | .ok versions => .versions versions
      | .error e => .error e
  | .restore gameId _ =>
      match ops.restored with
      | .unknownGame => .error ("unknown game " ++ Uuid.text gameId)
      | .done => .ok
      | .failed e => .error e
  | .resolveConflict gameId _ =>
      match ops.resolved with
      | .unknownGame => .error ("no pending conflict for " ++ Uuid.text gameId)
      | .done => .ok
      | .failed e => .error e
  | .getStatus => .status ops.status
  | .getConfig => .config (ops.config.getD default)
  | .updateConfig _ => done ops.updated
  | .enterLearnMode _ => .ok
  | .pairDevice _ _ _ =>
      match ops.paired with
      | .ok deviceId => .paired deviceId
      | .error e => .error e
  | .setAutostart _ => done ops.autostart
  | .addCustomGame _ => done ops.addCustom
  | .removeCustomGame _ => done ops.removeCustom
  | .getLogs _ => .logs ops.logs
  -- Intercepted in `serve_connection`.
  | .shutdown => .ok

/-- The answers that a request is made for. Every other reply is an error in the app, also
one that another request would take. -/
def Expects : GuiRequest → DaemonMsg → Prop
  | .listGames, .games _ | .listRoots, .roots _ | .listVersions _, .versions _
  | .getStatus, .status _ | .getConfig, .config _ | .getLogs _, .logs _
  | .pairDevice _ _ _, .paired _ | .backupNow _, .conflictRaised _ _
  | .addRoot _, .ok | .removeRoot _, .ok | .backupNow _, .ok | .restore _ _, .ok
  | .resolveConflict _ _, .ok | .updateConfig _, .ok | .enterLearnMode _, .ok
  | .setAutostart _, .ok | .addCustomGame _, .ok | .removeCustomGame _, .ok
  | .shutdown, .ok => True
  | _, _ => False

theorem expects_done {req : GuiRequest} (h : Expects req .ok) (result : Except String Unit) :
    Expects req (done result) ∨ ∃ message, done result = .error message := by
  cases result with
  | ok _ => exact .inl h
  | error e => exact .inr ⟨e, rfl⟩

/-- A request is answered with what it is made for, or with an error. -/
theorem Expects.handleRequest (ops : Operations) (req : GuiRequest) :
    Expects req (handleRequest ops req) ∨ ∃ message, handleRequest ops req = .error message := by
  cases req with
  | listRoots =>
      rw [Ipc.handleRequest]
      cases ops.roots
      · exact .inr ⟨_, rfl⟩
      · exact .inl trivial
  | listVersions =>
      rw [Ipc.handleRequest]
      cases ops.versions
      · exact .inr ⟨_, rfl⟩
      · exact .inl trivial
  | pairDevice =>
      rw [Ipc.handleRequest]
      cases ops.paired
      · exact .inr ⟨_, rfl⟩
      · exact .inl trivial
  | backupNow =>
      rw [Ipc.handleRequest]
      cases ops.backup
      · exact .inr ⟨_, rfl⟩
      · exact .inl trivial
      · exact .inl trivial
      · exact .inr ⟨_, rfl⟩
  | restore =>
      rw [Ipc.handleRequest]
      cases ops.restored
      · exact .inr ⟨_, rfl⟩
      · exact .inl trivial
      · exact .inr ⟨_, rfl⟩
  | resolveConflict =>
      rw [Ipc.handleRequest]
      cases ops.resolved
      · exact .inr ⟨_, rfl⟩
      · exact .inl trivial
      · exact .inr ⟨_, rfl⟩
  | addRoot | removeRoot | updateConfig | setAutostart | addCustomGame | removeCustomGame =>
      refine expects_done ?_ _
      trivial
  | _ => exact .inl trivial

/-- The engine can answer a request so. -/
def Answers (req : GuiRequest) (reply : DaemonMsg) : Prop := ∃ ops, reply = handleRequest ops req

/-- No request is answered with an event. -/
theorem Answers.isReply {req : GuiRequest} {reply : DaemonMsg} (h : Answers req reply) :
    reply.isReply = true := by
  obtain ⟨ops, rfl⟩ := h
  rcases Expects.handleRequest ops req with h | ⟨message, h⟩
  · generalize handleRequest ops req = reply at h
    cases reply with
    | event => cases req <;> exact h.elim
    | _ => rfl
  · rw [h]
    rfl

end Ipc

end Savr
