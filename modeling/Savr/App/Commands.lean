import Savr.Daemon.IpcSession

/-!
# The commands of the app

`savr-app/src-tauri/src/commands.rs`: each command is one request to the daemon, and narrows the
reply to what the frontend expects.

## Main results

* `command_result` — a command ends with the value that the engine answered with, with an error
  that the daemon reported, or without an answer; the reply is never one it does not expect.
-/

namespace Savr

namespace Ipc

open LabelledRun

/-- The `#[tauri::command]` functions that ask the daemon, with their arguments. Each sends
one request and waits for its reply. -/
inductive Command
  | listGames
  | listRoots
  | addRoot (spec : RootSpec)
  | removeRoot (id : Uuid)
  | backupNow (gameId : GameId)
  | listVersions (gameId : GameId)
  | restore (gameId : GameId) (versionId : VersionId)
  | resolveConflict (gameId : GameId) (choice : ResolveChoice)
  | getStatus
  | setAutostart (enabled : Bool)
  | getConfig
  | updateConfig (config : SyncedConfig)
  | enterLearnMode (gameId : GameId)
  | pairDevice (serverUrl code deviceName : String)
  | addCustomGame (spec : CustomGameSpec)
  | removeCustomGame (title : String)
  | getLogs (maxLines : ℕ)

namespace Command

/-- What a command returns to the frontend. Most of them return nothing; what they changed is
read by a later command. -/
def Value : Command → Type
  | listGames => List Game
  | listRoots => List Root
  | listVersions _ => List Version
  | getStatus => DaemonStatus
  | getConfig => SyncedConfig
  | pairDevice _ _ _ => Uuid
  | getLogs _ => List String
  | _ => Unit

/-- The request that a command sends: one variant of `GuiRequest` each, with the arguments as
they came from the frontend. -/
def req : Command → GuiRequest
  | listGames => .listGames
  | listRoots => .listRoots
  | addRoot spec => .addRoot spec
  | removeRoot id => .removeRoot id
  | backupNow gameId => .backupNow gameId
  | listVersions gameId => .listVersions gameId
  | restore gameId versionId => .restore gameId versionId
  | resolveConflict gameId choice => .resolveConflict gameId choice
  | getStatus => .getStatus
  | setAutostart enabled => .setAutostart enabled
  | getConfig => .getConfig
  | updateConfig config => .updateConfig config
  | enterLearnMode gameId => .enterLearnMode gameId
  | pairDevice serverUrl code deviceName => .pairDevice serverUrl code deviceName
  | addCustomGame spec => .addCustomGame spec
  | removeCustomGame title => .removeCustomGame title
  | getLogs maxLines => .getLogs maxLines

section Narrow

-- `{other:?}`.
variable (debug : DaemonMsg → String)

/-- A reply that a command does not expect. -/
def unexpected {α : Type} (expected : String) (other : DaemonMsg) : Except CmdError α :=
  .error (.protocol ("expected " ++ expected ++ ", got " ++ debug other))

/-- Assert that the daemon acknowledged a mutation with `Ok`. -/
def expectOk : DaemonMsg → Except CmdError Unit
  | .ok => .ok ()
  | other => unexpected debug "Ok" other

/-- What a command makes of the reply: its value, or an error about a reply that is not for
it. Each command is for replies of one variant, but `backupNow`, which is content with a
conflict too. -/
def narrow : (c : Command) → DaemonMsg → Except CmdError c.Value
  | listGames, .games games => .ok games
  | listGames, other => unexpected debug "Games" other
  | listRoots, .roots roots => .ok roots
  | listRoots, other => unexpected debug "Roots" other
  -- A conflict is an expected outcome, shown elsewhere.
  | backupNow _, .ok => .ok ()
  | backupNow _, .conflictRaised _ _ => .ok ()
  | backupNow _, other => unexpected debug "Ok" other
  | listVersions _, .versions versions => .ok versions
  | listVersions _, other => unexpected debug "Versions" other
  | getStatus, .status status => .ok status
  | getStatus, other => unexpected debug "Status" other
  | getConfig, .config config => .ok config
  | getConfig, other => unexpected debug "Config" other
  | pairDevice _ _ _, .paired deviceId => .ok deviceId
  | pairDevice _ _ _, other => unexpected debug "Paired" other
  | getLogs _, .logs lines => .ok lines
  | getLogs _, other => unexpected debug "Logs" other
  | addRoot _, msg => expectOk debug msg
  | removeRoot _, msg => expectOk debug msg
  | restore _ _, msg => expectOk debug msg
  | resolveConflict _ _, msg => expectOk debug msg
  | setAutostart _, msg => expectOk debug msg
  | updateConfig _, msg => expectOk debug msg
  | enterLearnMode _, msg => expectOk debug msg
  | addCustomGame _, msg => expectOk debug msg
  | removeCustomGame _, msg => expectOk debug msg

/-- A command, when `request` has returned. -/
def finish (c : Command) : Except CmdError DaemonMsg → Except CmdError c.Value
  | .ok msg => narrow debug c msg
  | .error e => .error e

variable {debug}

/-- What a request is made for is what its command expects. -/
theorem exists_narrow_of_expects {c : Command} {msg : DaemonMsg} (h : Expects c.req msg) :
    ∃ value, narrow debug c msg = .ok value := by
  cases c <;> cases msg <;> first | exact h.elim | exact ⟨_, rfl⟩

end Narrow

end Command

section Runs

variable {reqs : Json GuiRequest} {msgs : Json DaemonMsg} {cap : ℕ} {w : IpcConn}
  {trace : List IpcEvent} {debug : DaemonMsg → String} {c : Command}

/-- The engine has answered a command, which returns the value in the answer, or what the daemon
says is wrong. -/
inductive Ended (msgs : Json DaemonMsg) (debug : DaemonMsg → String) (c : Command)
    (reply : DaemonMsg) : Except CmdError c.Value → Prop
  | value {value : c.Value} (narrow : c.narrow debug reply = .ok value) :
      Ended msgs debug c reply (.ok value)
  | failed {message : String} (said : reply = .error message) :
      Ended msgs debug c reply (.error (.daemon message))
  | large {e : IpcError} (unwritten : encodeFrame msgs reply = .error e) :
      Ended msgs debug c reply
        (.error (.daemon ("daemon could not encode reply: " ++ errorText e)))

/-- Whatever the engine's operations return, the command ends as it should. -/
theorem ended_of_handleRequest (ops : Operations) :
    Ended msgs debug c (handleRequest ops c.req)
      (c.finish debug (outcome (wire msgs (handleRequest ops c.req)))) := by
  cases hframe : encodeFrame msgs (handleRequest ops c.req) with
  | error e =>
      rw [wire, hframe]
      exact .large hframe
  | ok frame =>
      rw [wire_of_encodes hframe]
      rcases Expects.handleRequest ops c.req with hexpects | ⟨message, hmessage⟩
      · obtain ⟨value, hvalue⟩ : ∃ value, c.narrow debug (handleRequest ops c.req) = .ok value :=
          Command.exists_narrow_of_expects hexpects
        have houtcome : outcome (handleRequest ops c.req) = .ok (handleRequest ops c.req) := by
          generalize handleRequest ops c.req = reply at hexpects
          cases reply with
          | error => cases c <;> exact hexpects.elim
          | _ => rfl
        rw [houtcome, Command.finish, hvalue]
        exact .value hvalue
      · rw [hmessage]
        exact .failed rfl

/-- **A command ends as its frontend is told it can.**  In every run of the connection of a
command, what it returns is the value in the engine's answer to it, or an error that the daemon
reports, or that there was no answer; and never that the answer was of a kind it does not
expect. -/
theorem command_result (falls : FallsBack msgs)
    (run : Run (IpcStep reqs msgs cap) (IpcConn.opened reqs c.req) trace w)
    {result : Except CmdError DaemonMsg} (returned : w.client = .done result) :
    ((∃ ops, w.handled = [(c.req, handleRequest ops c.req)] ∧
        Ended msgs debug c (handleRequest ops c.req) (c.finish debug result)) ∨
      ∃ e, c.finish debug result = .error e ∧ Lost (.error e) ∧
        (.kill ∈ trace ∨ ∃ e, encodeFrame reqs c.req = .error e)) ∧
    ∀ message, c.finish debug result ≠ .error (.protocol message) := by
  have hended : (∃ ops, w.handled = [(c.req, handleRequest ops c.req)] ∧
        Ended msgs debug c (handleRequest ops c.req) (c.finish debug result)) ∨
      ∃ e, c.finish debug result = .error e ∧ Lost (.error e) ∧
        (.kill ∈ trace ∨ ∃ e, encodeFrame reqs c.req = .error e) := by
    rcases result_of_run falls run returned with ⟨ops, hhandled, rfl⟩ | ⟨hlost, hwhy⟩
    · exact .inl ⟨ops, hhandled, ended_of_handleRequest ops⟩
    · cases result with
      | ok msg => exact hlost.elim
      | error e => exact .inr ⟨e, rfl, hlost, hwhy⟩
  refine ⟨hended, fun message hprotocol => ?_⟩
  rcases hended with ⟨ops, -, hended⟩ | ⟨e, herror, hlost, -⟩
  · rw [hprotocol] at hended
    cases hended
  · obtain rfl : e = .protocol message := Except.error.inj (herror.symm.trans hprotocol)
    exact hlost

section Example

/-- A backup of game 7 is acknowledged. -/
theorem backup_command_result :
    ∃ (w : IpcConn) (result : Except CmdError DaemonMsg), w.client = .done result ∧
      ∀ message, (Command.backupNow 7).finish (fun _ => "") result
        ≠ .error (.protocol message) := by
  obtain ⟨request, hrequest⟩ : ∃ request, encodeFrame backupJson (.backupNow 7) = .ok request :=
    ok_of_toOption (by decide +kernel)
  obtain ⟨trace, w, run, -, result, hresult⟩ :=
    exists_run_done fallsBack_okJson (Nat.zero_lt_succ 4095) hrequest sound_opened
  exact ⟨w, result, hresult,
    (command_result (c := .backupNow 7) fallsBack_okJson run hresult).2⟩

end Example

end Runs

end Ipc

end Savr
