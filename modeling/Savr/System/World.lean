import Savr.Daemon.CrashConsistency
import Savr.Daemon.Restore
import Savr.Server.Retention
import Savr.Lib.Run

/-!
# Devices against the server

Any number of devices and one server.  A step is one operation of one device: a
backup, a drain of its outbox, a restore, or the resolution of a conflict.  An
operation may be cut short: the process dies after some of its actions, and the
next step finds what those left behind.

What a step did is part of its label: the actions that were performed and the
replies the server gave to the uploads among them.
-/

namespace Savr

open LabelledRun Script

/-- A server and its devices. -/
structure World where
  server : Server
  devices : ℕ → Device

/-- One operation of a device, with what the environment decides about it. -/
inductive Op
  | backup (job : BackupJob) (env : BackupEnv)
  | retry (authenticated : Bool) (now : Timestamp) (env : Uuid → RetryEnv)
  | restore (gameId : GameId) (target : VersionId)
  | resolve (gameId : GameId) (winner : VersionId) (keepBoth : Bool) (id : Uuid)
      (now : Timestamp)

/-- An upload the server received, and its reply. -/
structure Reply where
  accountId : AccountId
  gameId : GameId
  request : CreateVersion
  reply : Except ApiError Advance

/-- An operation of a device, with the actions it performed and the replies it got. -/
structure Event where
  device : ℕ
  op : Op
  performed : List Action
  replies : List Reply

section General

variable [Blake3]

/-- The actions of an operation that is not interrupted. -/
def Op.script (m : Machine) : Op → List Action
  | backup job env => (runBackup m job env).2
  | retry authenticated now env => retryOutbox m authenticated now env
  | restore gameId target => runRestore m gameId target
  | resolve gameId winner keepBoth id now =>
      [.request (.resolve gameId winner keepBoth id now)]

/-- The server's reply to an upload. -/
def Machine.reply (m : Machine) : Action → List Reply
  | .request (.createVersion gameId req id now) =>
      [{ accountId := m.device.accountId, gameId, request := req,
         reply := (m.server.createVersion m.authed gameId req id now).2.1 }]
  | _ => []

/-- The server's replies to the uploads among the actions. -/
def Machine.replies : Machine → List Action → List Reply
  | _, [] => []
  | m, a :: as => m.reply a ++ (m.apply a).replies as

namespace World

/-- A device together with the server. -/
def machine (w : World) (d : ℕ) : Machine where
  device := w.devices d
  server := w.server

/-- The world after a device performed some actions. -/
def perform (w : World) (d : ℕ) (as : List Action) : World where
  server := ((w.machine d).run as).server
  devices := Function.update w.devices d ((w.machine d).run as).device

/-- Nothing has been backed up yet. -/
structure New (w : World) : Prop where
  fresh : w.server.db.Fresh
  empty : ∀ hash, w.server.objects hash = none
  devices : ∀ d, (w.devices d).New

omit [Blake3] in
@[simp] theorem machine_server (w : World) (d : ℕ) : (w.machine d).server = w.server := rfl

omit [Blake3] in
@[simp] theorem machine_device (w : World) (d : ℕ) : (w.machine d).device = w.devices d := rfl

theorem perform_machine (w : World) (d : ℕ) (as : List Action) :
    (w.perform d as).machine d = (w.machine d).run as := by
  simp [perform, machine]

theorem perform_machine_of_ne (w : World) {d d' : ℕ} (hne : d' ≠ d) (as : List Action) :
    (w.perform d as).machine d' = ⟨w.devices d', ((w.machine d).run as).server⟩ := by
  simp [perform, machine, hne]

end World

/-- One operation of one device, complete or cut short.  The ids it draws are new;
those it did not come to draw may as well be. -/
inductive Step : World → Event → World → Prop
  | complete {w : World} (d : ℕ) (op : Op)
      (fresh : (w.machine d).FreshFor (op.script (w.machine d))) :
      Step w
        { device := d, op, performed := op.script (w.machine d)
          replies := (w.machine d).replies (op.script (w.machine d)) }
        (w.perform d (op.script (w.machine d)))
  | crash {w : World} (d : ℕ) (op : Op) (k : ℕ)
      (fresh : (w.machine d).FreshFor (op.script (w.machine d))) :
      Step w
        { device := d, op, performed := (op.script (w.machine d)).take k
          replies := (w.machine d).replies ((op.script (w.machine d)).take k) }
        (w.perform d ((op.script (w.machine d)).take k))

/-- The operation was not interrupted. -/
def Completes (w : World) (ev : Event) : Prop :=
  ev.performed = ev.op.script (w.machine ev.device)

variable {w w' w₀ : World} {ev : Event} {trace : List Event}

/-- Every step performs a prefix of the operation's script. -/
theorem Step.performs (h : Step w ev w') :
    ∃ k, ev.performed = (ev.op.script (w.machine ev.device)).take k ∧
      (w.machine ev.device).FreshFor (ev.op.script (w.machine ev.device)) ∧
      w' = w.perform ev.device ev.performed ∧
      ev.replies = (w.machine ev.device).replies ev.performed := by
  cases h with
  | complete d op fresh => exact ⟨_, (List.take_length).symm, fresh, rfl, rfl⟩
  | crash d op k fresh => exact ⟨k, rfl, fresh, rfl, rfl⟩

/-! ### Runs given by their operations -/

/-- One operation after the other, none of them interrupted. -/
def World.after (w : World) : List (ℕ × Op) → World
  | [] => w
  | (d, op) :: ops => (w.perform d (op.script (w.machine d))).after ops

/-- The events of a list of operations, one after the other. -/
def World.events (w : World) : List (ℕ × Op) → List Event
  | [] => []
  | (d, op) :: ops =>
      { device := d, op, performed := op.script (w.machine d)
        replies := (w.machine d).replies (op.script (w.machine d)) } ::
      (w.perform d (op.script (w.machine d))).events ops

/-- Every id that the operations draw is fresh. -/
def World.FreshOps (w : World) : List (ℕ × Op) → Prop
  | [] => True
  | (d, op) :: ops =>
      (w.machine d).FreshFor (op.script (w.machine d)) ∧
        (w.perform d (op.script (w.machine d))).FreshOps ops

instance World.decidableFreshOps : ∀ (w : World) (ops : List (ℕ × Op)), Decidable (w.FreshOps ops)
  | _, [] => isTrue trivial
  | w, (d, op) :: ops =>
      have := decidableFreshOps (w.perform d (op.script (w.machine d))) ops
      inferInstanceAs (Decidable ((w.machine d).FreshFor (op.script (w.machine d)) ∧
        (w.perform d (op.script (w.machine d))).FreshOps ops))

/-- Every step meets a condition. -/
def World.Meets (cond : World → Event → Prop) (w : World) : List (ℕ × Op) → Prop
  | [] => True
  | (d, op) :: ops =>
      cond w { device := d, op, performed := op.script (w.machine d)
               replies := (w.machine d).replies (op.script (w.machine d)) } ∧
        (w.perform d (op.script (w.machine d))).Meets cond ops

theorem World.run_after {cond : World → Event → Prop} {ops : List (ℕ × Op)}
    (fresh : w.FreshOps ops) (meets : w.Meets cond ops) :
    Run (under Step cond) w (w.events ops) (w.after ops) := by
  induction ops generalizing w with
  | nil => exact Run.nil
  | cons o ops ih =>
      exact (Run.single ⟨Step.complete o.1 o.2 fresh.1, meets.1⟩).trans (ih fresh.2 meets.2)

theorem World.meets_completes (w : World) (ops : List (ℕ × Op)) : w.Meets Completes ops := by
  induction ops generalizing w with
  | nil => trivial
  | cons o ops ih => exact ⟨rfl, ih _⟩

theorem World.New.sound (new : w.New) : w.server.Sound :=
  Server.Sound.of_fresh new.fresh new.empty

/-- **Every step keeps the server sound and takes nothing from it**; a device keeps
its account. -/
theorem Step.sound (h : Step w ev w') (sound : w.server.Sound) :
    w'.server.Sound ∧ w.server.Le w'.server ∧
      ∀ d, (w'.devices d).accountId = (w.devices d).accountId := by
  obtain ⟨k, hperf, fresh, rfl, -⟩ := h.performs
  obtain ⟨hsound, hle, hacc⟩ :=
    Machine.run_sound (m := w.machine ev.device) sound (fresh.take k)
  rw [← hperf] at hsound hle hacc
  refine ⟨hsound, hle, fun d => ?_⟩
  by_cases hd : d = ev.device
  · subst hd
    simpa [World.perform] using hacc
  · simp [World.perform, hd]

theorem world_sound (new : w₀.New) (run : Run Step w₀ trace w) : w.server.Sound :=
  run.invariant (I := fun w => w.server.Sound) (fun _ _ _ sound step => (step.sound sound).1)
    new.sound

/-! ### The server's side of a run -/

/-- What a device asks of the server is a run of the server. -/
theorem Machine.serverRun {m : Machine} {as : List Action} (fresh : m.FreshFor as) :
    ∃ trace, Run ServerStep m.server trace (m.run as).server := by
  induction as generalizing m with
  | nil => exact ⟨[], Run.nil⟩
  | cons a as ih =>
      obtain ⟨trace, run⟩ := ih (m := m.apply a) fresh.2
      have hfirst : ∃ trace, Run ServerStep m.server trace (m.apply a).server := by
        cases a with
        | write w => exact ⟨[], Run.nil⟩
        | request r =>
            cases r with
            | blobPut hash body now =>
                change ∃ trace, Run ServerStep m.server trace (m.server.blobPut hash body now).1
                unfold Server.blobPut
                split
                · exact ⟨_, Run.single (ServerStep.tx _ (TxStep.recordBlob hash _ now))⟩
                · exact ⟨[], Run.nil⟩
            | createVersion gameId req id now =>
                change ∃ trace, Run ServerStep m.server trace
                  (m.server.createVersion m.authed gameId req id now).1
                unfold Server.createVersion
                split
                · exact ⟨_, Run.single (ServerStep.tx _
                    (TxStep.create ⟨m.device.accountId, gameId, req, id, now⟩ fresh.1))⟩
                · exact ⟨[], Run.nil⟩
            | resolve gameId winner keepBoth id now =>
                change ∃ trace, Run ServerStep m.server trace
                  (m.server.resolve m.authed gameId winner keepBoth id now).1
                rw [Server.resolve_server]
                exact ⟨_, Run.single (ServerStep.tx _
                  (TxStep.resolve ⟨m.device.accountId, gameId, winner, keepBoth, id, now⟩))⟩
      obtain ⟨first, hfirst⟩ := hfirst
      exact ⟨first ++ trace, hfirst.trans run⟩

/-- **What devices do is a history of the server.** -/
theorem World.serverRun (run : Run Step w₀ trace w) :
    ∃ events, Run ServerStep w₀.server events w.server := by
  refine run.invariant (I := fun w => ∃ events, Run ServerStep w₀.server events w.server) ?_
    ⟨[], Run.nil⟩
  rintro w ev w' ⟨events, history⟩ step
  obtain ⟨k, hperf, fresh, rfl, -⟩ := step.performs
  obtain ⟨more, hmore⟩ := Machine.serverRun (fresh.take k)
  rw [← hperf] at hmore
  exact ⟨events ++ more, history.trans hmore⟩

end General

section Example

local instance worldDigest : Blake3 := plainDigest

/-- Devices that have not backed up yet, and their server. -/
def newWorld : World where
  server := newMachine.server
  devices := fun _ => newMachine.device

theorem newWorld_new : newWorld.New :=
  ⟨⟨by decide, by decide, by decide, by decide, rfl, by decide, by decide⟩,
    by simp [newWorld, newMachine], fun _ => ⟨fun _ => rfl, rfl⟩⟩

/-- A drain at time `now` in which every request gets through. -/
def exampleRetry (now : Timestamp) : Op :=
  .retry true now fun id => ⟨.none, ⟨100 + id, now⟩, now⟩

end Example

end Savr
