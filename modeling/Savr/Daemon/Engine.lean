import Savr.Server.Api

/-!
# Conflicts in the daemon's engine

The part of `savr-daemon/src/engine.rs` that keeps the unresolved conflicts: the two
ways of learning of one, from the reply to an upload and from a push, and the
resolution the user chooses.

The engine holds one pair of tips for each game, in memory, until a resolution
succeeds or another conflict of the game replaces it.
-/

namespace Savr

/-- The two divergent tips of an unresolved conflict. -/
structure ConflictTips where
  mine : VersionId
  theirs : VersionId
  deriving DecidableEq, Repr

/-- What the user chose for a conflict. -/
inductive ResolveChoice
  | keepMine
  | keepTheirs
  | keepBoth
  deriving DecidableEq, Repr

/-- Request body of `POST /games/{id}/resolve`. -/
structure ResolveRequest where
  winner : VersionId
  keepBoth : Bool
  deriving DecidableEq, Repr

/-- What the engine answers to the GUI. -/
inductive DaemonMsg
  | ok
  | error (message : String)
  /-- `err(e)`: an error of the server, or no reply. -/
  | failed (e : Option ApiError)
  | conflictRaised (gameId : GameId) (tips : List VersionId)
  deriving DecidableEq, Repr

/-- The engine of one paired device. -/
structure Engine where
  auth : Authed
  conflicts : GameId → Option ConflictTips

namespace Engine

/-- Record a conflict for later resolution and surface it to the GUI. -/
def recordConflict (e : Engine) (gameId : GameId) (theirs : Option VersionId)
    (mine : VersionId) : Engine × DaemonMsg :=
  let theirs := theirs.getD mine
  ({ e with conflicts := Function.update e.conflicts gameId (some { mine, theirs }) },
    .conflictRaised gameId [theirs, mine])

/-- Record a conflict pushed over WebSocket. -/
def recordWsConflict (e : Engine) (gameId : GameId) (tips : List VersionId) : Engine :=
  match tips[0]?, tips[1]? with
  | some theirs, some mine =>
      { e with conflicts := Function.update e.conflicts gameId (some { mine, theirs }) }
  | _, _ => e

/-- The request a choice stands for. -/
def resolveRequest (tips : ConflictTips) : ResolveChoice → ResolveRequest
  | .keepMine => { winner := tips.mine, keepBoth := false }
  | .keepTheirs => { winner := tips.theirs, keepBoth := false }
  | .keepBoth => { winner := tips.mine, keepBoth := true }

/-- Resolve the pending conflict of a game.  The reply of the server may get lost:
then the server has resolved, and the engine keeps the conflict. -/
def resolveConflict (e : Engine) (s : Server) (gameId : GameId) (choice : ResolveChoice)
    (id : Uuid) (now : Timestamp) (answered : Bool) :
    Engine × Server × List Broadcast × DaemonMsg :=
  match e.conflicts gameId with
  | none => (e, s, [], .error ("no pending conflict for " ++ Uuid.text gameId))
  | some tips =>
      let req := resolveRequest tips choice
      let (s', reply, pushes) := s.resolve e.auth gameId req.winner req.keepBoth id now
      if answered then
        match reply with
        | .ok _ =>
            ({ e with conflicts := Function.update e.conflicts gameId none }, s', pushes, .ok)
        | .error err => (e, s', pushes, .failed (some err))
      else (e, s', pushes, .failed none)

/-- What a push changes here: a conflict is recorded.  The pulls that a new version or a
new config start are operations of their own. -/
def receive (e : Engine) : ServerMsg → Engine
  | .conflict gameId tips => e.recordWsConflict gameId tips
  | .versionAvailable _ _ _ | .configUpdated _ | .deviceAdded _ => e

/-- `backup_now` and the event loop, on the reply to an upload. -/
def onReply (e : Engine) (gameId : GameId) : Except ApiError Advance → Engine
  | .ok (.conflict head incoming) =>
      (e.recordConflict gameId (head.map Version.id) incoming.id).1
  | _ => e

end Engine

end Savr
