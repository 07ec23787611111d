import Savr.Daemon.Watcher

/-!
# The supervisor of the bundled daemon

`Supervisor` and `supervise` of `savr-app/src-tauri/src/daemon.rs`.  The loop spawns a child,
hands it over to the shared slot, watches it until it has ended, and starts again; `shutdown`
may be called at any time, any number of times.  What takes the lock of the slot is one step.

## Main results

* `AppState.Sound.step` — where a living child is, and whose handle it is.
* `never_orphaned_or_doubled` — at most one child at a time, and none after a shutdown.
-/

namespace Savr

open LabelledRun

/-- `RESTART_DELAY` only delays the loop, and is not modelled. -/
def maxFastRestarts : ℕ := 5

/-- `FAST_RESTART`, in nanoseconds. -/
def fastRestart : Instant := 3 * 1000000000

/-- A child process that the loop has spawned. -/
abbrev ChildId := ℕ

/-- Where `supervise` is, between two of its await points. The number is `fast_restarts`, how
often in a row a child has ended early. -/
inductive LoopPhase
  /-- About to ask whether a daemon is running already. -/
  | probing
  /-- At the top of the loop. -/
  | asking (fast : ℕ)
  | spawning (fast : ℕ)
  /-- The child runs, and is about to be handed over. -/
  | adopting (fast : ℕ) (child : ChildId)
  /-- Receiving the events of the child. -/
  | watching (fast : ℕ) (child : ChildId)
  | clearing (fast : ℕ) (child : ChildId)
  /-- The slot is empty again. -/
  | checking (fast : ℕ)
  | sleeping (fast : ℕ)
  | returned
  deriving DecidableEq, Repr

/-- The child that may be alive. -/
def LoopPhase.current : LoopPhase → Option ChildId
  | adopting _ child | watching _ child => some child
  | _ => none

/-- The child that has been handed over. -/
def LoopPhase.adopted : LoopPhase → Option ChildId
  | watching _ child | clearing _ child => some child
  | _ => none

/-- The next step takes the lock and finds out about a shutdown. -/
def LoopPhase.asks : LoopPhase → Bool
  | asking _ | adopting _ _ | checking _ => true
  | _ => false

/-- How the attempt to spawn the sidecar ends. -/
inductive SpawnResult
  | ok
  | missingBinary
  | failed
  deriving DecidableEq, Repr

/-- What `rx.recv()` returns: an event of the child, or that its channel is closed. Two of
them and the closed channel end the inner loop. -/
inductive Received
  | output
  | terminated
  | pipeError
  | other
  /-- The channel is closed. -/
  | closed
  deriving DecidableEq, Repr

/-- The loop over the events is left. -/
def Received.leaves : Received → Bool
  | terminated | closed => true
  | output | pipeError | other => false

/-- What the environment decides about a step of the loop. Each step reads the parts that the
call it models returns, and no others. -/
structure LoopDraw where
  /-- `is_daemon_running`. -/
  daemonRunning : Bool
  spawn : SpawnResult
  received : Received
  /-- `started.elapsed()`. -/
  elapsed : Instant
  deriving DecidableEq, Repr

/-- What the app shares with its supervisor loop, and the children that run. What the
platform knows of the children is part of it, since the slot only holds a handle. -/
structure AppState where
  /-- `Inner::child`. -/
  child : Option ChildId
  shuttingDown : Bool
  loop : LoopPhase
  /-- The spawned children that run. -/
  alive : List ChildId
  /-- How many children have been spawned. -/
  spawned : ℕ
  /-- The children that have been killed, in this order. -/
  killed : List ChildId
  deriving DecidableEq, Repr

/-- What happens next: the app, the loop or a child moves. -/
inductive SupervisorEvent
  /-- A call of `shutdown`. -/
  | shutdown
  | loop (draw : LoopDraw)
  /-- A child ends by itself. -/
  | exits (child : ChildId)

namespace AppState

/-- `CommandChild::kill` ends the child. -/
def kill (w : AppState) (child : ChildId) : AppState :=
  { w with alive := w.alive.erase child, killed := w.killed ++ [child] }

/-- `adopt`: a child that comes after the shutdown is killed at once. -/
def adopt (w : AppState) (fast : ℕ) (child : ChildId) : AppState :=
  if w.shuttingDown then { w.kill child with loop := .returned }
  else { w with child := some child, loop := .watching fast child }

/-- Stop supervising and kill the daemon. -/
def shutdown (w : AppState) : AppState :=
  match w.child with
  | some child => { w.kill child with shuttingDown := true, child := none }
  | none => { w with shuttingDown := true }

/-- The restart budget after another fast end. -/
def restart (fast : ℕ) : LoopPhase :=
  if maxFastRestarts ≤ fast + 1 then .returned else .sleeping (fast + 1)

/-- One step of `supervise`: each phase is the code up to the next point where the app can
act in between. A restart counts up and sleeps, or gives the daemon up. -/
def stepLoop (w : AppState) (draw : LoopDraw) : LoopPhase → AppState
  | .probing => { w with loop := if draw.daemonRunning then .returned else .asking 0 }
  | .asking fast => { w with loop := if w.shuttingDown then .returned else .spawning fast }
  | .spawning fast =>
      match draw.spawn with
      | .ok =>
          { w with
            loop := .adopting fast w.spawned
            alive := w.alive ++ [w.spawned]
            spawned := w.spawned + 1 }
      | .missingBinary => { w with loop := .returned }
      | .failed => { w with loop := restart fast }
  | .adopting fast child => w.adopt fast child
  | .watching fast child =>
      { w with
        loop := if draw.received.leaves then .clearing fast child else .watching fast child }
  | .clearing fast _ => { w with child := none, loop := .checking fast }
  | .checking fast =>
      { w with
        loop :=
          if w.shuttingDown then .returned
          else if draw.elapsed < fastRestart then restart fast
          else .sleeping 0 }
  | .sleeping fast => { w with loop := .asking fast }
  | .returned => w

/-- The channel of a child closes, and its end is reported, only after it has ended.
Everything else may come at any time, the shutdown of the app more than once. -/
def Enabled (w : AppState) : SupervisorEvent → Prop
  | .shutdown => True
  | .loop draw =>
      match w.loop with
      | .watching _ child => draw.received.leaves = true → child ∉ w.alive
      | .returned => False
      | _ => True
  | .exits child => child ∈ w.alive

instance (w : AppState) : DecidablePred w.Enabled
  | .shutdown => inferInstanceAs (Decidable True)
  | .loop draw =>
      match h : w.loop with
      | .watching _ child =>
          decidable_of_iff (draw.received.leaves = true → child ∉ w.alive) (by rw [Enabled, h])
      | .returned => isFalse (by rw [Enabled, h]; exact id)
      | .probing | .asking _ | .spawning _ | .adopting _ _ | .clearing _ _ | .checking _
      | .sleeping _ => isTrue (by rw [Enabled, h]; trivial)
  | .exits child => inferInstanceAs (Decidable (child ∈ w.alive))

/-- The state after an event. -/
def next (w : AppState) : SupervisorEvent → AppState
  | .shutdown => w.shutdown
  | .loop draw => w.stepLoop draw w.loop
  | .exits child => { w with alive := w.alive.erase child }

/-- The app has just started. -/
def start : AppState where
  child := none
  shuttingDown := false
  loop := .probing
  alive := []
  spawned := 0
  killed := []

end AppState

/-- The loop and the rest of the app, one event after the other. -/
def SupervisorStep : AppState → SupervisorEvent → AppState → Prop :=
  guarded AppState.Enabled AppState.next

/-! ## Where a living child is -/

namespace AppState

variable {w w' : AppState} {ev : SupervisorEvent} {c : ChildId}

/-- No child is forgotten: a living one is the one that the loop or the slot knows of. What
is handed over and not in the slot any more has been killed or has ended. -/
structure Sound (w : AppState) : Prop where
  /-- Only the child that the loop has at hand can be alive. -/
  alive : w.alive = [] ∨ ∃ c, w.loop.current = some c ∧ w.alive = [c]
  /-- The slot is for the child that has been handed over. -/
  slot : ∀ c, w.child = some c → w.loop.adopted = some c
  /-- A living child that has been handed over is in the slot. -/
  handle : ∀ c, w.loop.adopted = some c → c ∈ w.alive → w.child = some c
  stopped : w.shuttingDown = true → w.child = none
  known : ∀ c, c ∈ w.killed ∨ w.loop.current = some c ∨ w.loop.adopted = some c → c < w.spawned
  /-- Who can still be killed has not been killed. -/
  unkilled : ∀ c, w.child = some c ∨ (∃ fast, w.loop = .adopting fast c) → c ∉ w.killed
  once : w.killed.Nodup

/-- At the start of the app nothing runs and the slot is empty. -/
theorem sound_start : start.Sound := by
  constructor
  · exact .inl rfl
  · nofun
  · nofun
  · exact fun _ => rfl
  · rintro c (h | h | h) <;> cases h
  · rintro c (h | ⟨fast, h⟩) <;> cases h
  · exact List.nodup_nil

/-- A child that ends leaves the app as it is; the loop learns of it later. -/
theorem Sound.exits (h : w.Sound) : Sound { w with alive := w.alive.erase c } := by
  refine ⟨?_, h.slot, fun d hd hmem => h.handle d hd (List.mem_of_mem_erase hmem), h.stopped,
    h.known, h.unkilled, h.once⟩
  rcases h.alive with hnil | ⟨d, hcurrent, hone⟩
  · exact .inl (by rw [hnil]; rfl)
  · by_cases hcd : c = d
    · exact .inl (by rw [hone, hcd, List.erase_cons_head])
    · refine .inr ⟨d, hcurrent, ?_⟩
      rw [hone, List.erase_of_not_mem (by simpa using hcd)]

/-- A shutdown kills the child that the slot knows of, and there is no other. -/
theorem Sound.shutdown (h : w.Sound) : w.shutdown.Sound := by
  cases hchild : w.child with
  | none =>
      have heq : w.shutdown = { w with shuttingDown := true } := by rw [AppState.shutdown, hchild]
      rw [heq]
      exact ⟨h.alive, h.slot, h.handle, fun _ => hchild, h.known, h.unkilled, h.once⟩
  | some c =>
      have heq : w.shutdown = { w.kill c with shuttingDown := true, child := none } := by
        rw [AppState.shutdown, hchild]
      have hadopted := h.slot c hchild
      rw [heq]
      refine ⟨?_, nofun, fun d hd hmem => ?_, fun _ => rfl, fun d hd => ?_, ?_, ?_⟩
      · exact (h.exits (c := c)).alive
      · -- the child of the slot is the one that is killed
        obtain rfl : c = d := Option.some.inj (hadopted.symm.trans hd)
        rcases h.alive with hnil | ⟨d, -, hone⟩
        · rw [show (w.kill c).alive = w.alive.erase c from rfl, hnil] at hmem
          cases hmem
        · have hcd : c = d := List.mem_singleton.mp (hone ▸ List.mem_of_mem_erase hmem)
          rw [show (w.kill c).alive = w.alive.erase c from rfl, hone, hcd,
            List.erase_cons_head] at hmem
          cases hmem
      · rcases hd with hkilled | hrest
        · rcases List.mem_append.mp hkilled with hkilled | hnew
          · exact h.known d (.inl hkilled)
          · obtain rfl := List.mem_singleton.mp hnew
            exact h.known d (.inr (.inr hadopted))
        · exact h.known d (.inr hrest)
      · rintro d (hd | ⟨fast, hd⟩)
        · cases hd
        · rw [show w.loop = .adopting fast d from hd] at hadopted
          cases hadopted
      · refine List.nodup_append.mpr ⟨h.once, List.nodup_singleton c, ?_⟩
        rintro a ha b hb rfl
        obtain rfl := List.mem_singleton.mp hb
        exact h.unkilled a (.inl hchild) ha

/-- The loop has no child at hand. -/
structure Idle (l : LoopPhase) : Prop where
  current : l.current = none
  adopted : l.adopted = none

theorem Idle.not_adopting {l : LoopPhase} (h : Idle l) (fast : ℕ) (c : ChildId) :
    l ≠ .adopting fast c := by
  rintro rfl
  cases h.current

theorem idle_restart (fast : ℕ) : Idle (restart fast) := by
  unfold restart
  split_ifs <;> exact ⟨rfl, rfl⟩

theorem Sound.alive_of_idle (h : w.Sound) (hidle : Idle w.loop) : w.alive = [] := by
  rcases h.alive with hnil | ⟨c, hcurrent, -⟩
  · exact hnil
  · cases hidle.current.symm.trans hcurrent

theorem Sound.child_of_idle (h : w.Sound) (hidle : Idle w.loop) : w.child = none := by
  cases hchild : w.child with
  | none => rfl
  | some c => cases hidle.adopted.symm.trans (h.slot c hchild)

/-- Without a child at hand the loop can go anywhere. -/
theorem Sound.idle (h : w.Sound) {l : LoopPhase} (hidle : Idle w.loop) (hl : Idle l) :
    Sound { w with loop := l } := by
  refine ⟨.inl (h.alive_of_idle hidle), fun c hc => ?_, fun c hc => ?_, h.stopped, fun c hc => ?_,
    fun c hc => ?_, h.once⟩
  · cases (h.child_of_idle hidle).symm.trans hc
  · cases hl.adopted.symm.trans hc
  · rcases hc with hc | hc | hc
    · exact h.known c (.inl hc)
    · cases hl.current.symm.trans hc
    · cases hl.adopted.symm.trans hc
  · rcases hc with hc | ⟨fast, hc⟩
    · exact h.unkilled c (.inl hc)
    · exact absurd hc (hl.not_adopting fast c)

/-- A new child is the only one. -/
theorem Sound.spawn (h : w.Sound) (hidle : Idle w.loop) (fast : ℕ) :
    Sound { w with
      loop := .adopting fast w.spawned
      alive := w.alive ++ [w.spawned]
      spawned := w.spawned + 1 } := by
  have hchild := h.child_of_idle hidle
  refine ⟨.inr ⟨w.spawned, rfl, ?_⟩, fun c hc => ?_, nofun, h.stopped, fun c hc => ?_,
    fun c hc => ?_, h.once⟩
  · rw [h.alive_of_idle hidle, List.nil_append]
  · cases hchild.symm.trans hc
  · rcases hc with hc | hc | hc
    · exact (h.known c (.inl hc)).trans (Nat.lt_succ_self _)
    · obtain rfl := Option.some.inj hc
      exact Nat.lt_succ_self _
    · cases hc
  · rcases hc with hc | ⟨fast', hc⟩
    · cases hchild.symm.trans hc
    · -- the new child is not one of those that have been killed
      obtain ⟨-, rfl⟩ := LoopPhase.adopting.inj hc
      exact fun hkilled => Nat.lt_irrefl _ (h.known _ (.inl hkilled))

/-- **The hand-over**: a shutdown before it is seen, and one after it finds the child. -/
theorem Sound.adopt (h : w.Sound) {fast : ℕ} {child : ChildId}
    (hloop : w.loop = .adopting fast child) : (w.adopt fast child).Sound := by
  have hcurrent : w.loop.current = some child := by rw [hloop]; rfl
  have hchild : w.child = none := by
    cases hchild : w.child with
    | none => rfl
    | some c =>
        have hadopted := h.slot c hchild
        rw [hloop] at hadopted
        cases hadopted
  have hunkilled := h.unkilled child (.inr ⟨fast, hloop⟩)
  rw [AppState.adopt]
  split_ifs with hdown
  · refine ⟨.inl ?_, fun c hc => ?_, nofun, h.stopped, fun c hc => ?_, fun c hc => ?_, ?_⟩
    · show w.alive.erase child = []
      rcases h.alive with hnil | ⟨d, hcurrent', hone⟩
      · rw [hnil]
        rfl
      · obtain rfl := Option.some.inj (hcurrent.symm.trans hcurrent')
        rw [hone, List.erase_cons_head]
    · cases hchild.symm.trans hc
    · rcases hc with hc | hc | hc
      · rcases List.mem_append.mp hc with hc | hc
        · exact h.known c (.inl hc)
        · obtain rfl := List.mem_singleton.mp hc
          exact h.known c (.inr (.inl hcurrent))
      · cases hc
      · cases hc
    · rcases hc with hc | ⟨fast', hc⟩
      · cases hchild.symm.trans hc
      · cases hc
    · refine List.nodup_append.mpr ⟨h.once, List.nodup_singleton child, ?_⟩
      rintro a ha b hb rfl
      obtain rfl := List.mem_singleton.mp hb
      exact hunkilled ha
  · refine ⟨?_, fun c hc => hc, fun c hc _ => hc, fun hdown' => absurd hdown' hdown,
      fun c hc => ?_, fun c hc => ?_, h.once⟩
    · refine h.alive.imp_right fun ⟨d, hd, hone⟩ => ⟨d, ?_, hone⟩
      exact (hcurrent.symm.trans hd : some child = some d)
    · refine h.known c (hc.imp_right fun hc => .inl (hcurrent.trans ?_))
      rcases hc with hc | hc <;> exact hc
    · rcases hc with hc | ⟨fast', hc⟩
      · obtain rfl := Option.some.inj hc
        exact hunkilled
      · cases hc

/-- The end of the child has been observed. -/
theorem Sound.leave (h : w.Sound) {fast : ℕ} {child : ChildId}
    (hloop : w.loop = .watching fast child) (hdead : child ∉ w.alive) :
    Sound { w with loop := .clearing fast child } := by
  have hadopted : w.loop.adopted = some child := by rw [hloop]; rfl
  have hnil : w.alive = [] := by
    rcases h.alive with hnil | ⟨d, hcurrent, hone⟩
    · exact hnil
    · rw [hloop] at hcurrent
      obtain rfl := Option.some.inj hcurrent
      exact absurd (hone ▸ List.mem_singleton_self child) hdead
  refine ⟨.inl hnil, fun c hc => ?_, fun c _ hmem => ?_, h.stopped, fun c hc => ?_, fun c hc => ?_,
    h.once⟩
  · exact hadopted.symm.trans (h.slot c hc)
  · rw [show w.alive = [] from hnil] at hmem
    cases hmem
  · rcases hc with hc | hc | hc
    · exact h.known c (.inl hc)
    · cases hc
    · exact h.known c (.inr (.inr (hadopted.trans hc)))
  · rcases hc with hc | ⟨fast', hc⟩
    · exact h.unkilled c (.inl hc)
    · cases hc

/-- The loop clears the slot after its child has ended. -/
theorem Sound.clear (h : w.Sound) {fast : ℕ} {child : ChildId}
    (hloop : w.loop = .clearing fast child) :
    Sound { w with child := none, loop := .checking fast } := by
  refine ⟨.inl ?_, nofun, nofun, fun _ => rfl, fun c hc => ?_, fun c hc => ?_, h.once⟩
  · rcases h.alive with hnil | ⟨d, hcurrent, -⟩
    · exact hnil
    · rw [hloop] at hcurrent
      cases hcurrent
  · rcases hc with hc | hc | hc
    · exact h.known c (.inl hc)
    · cases hc
    · cases hc
  · rcases hc with hc | ⟨fast', hc⟩ <;> cases hc

/-- No step of the loop forgets a child. -/
theorem Sound.loop (h : w.Sound) (draw : LoopDraw) (enabled : w.Enabled (.loop draw)) :
    (w.stepLoop draw w.loop).Sound := by
  cases hloop : w.loop with
  | probing =>
      have hidle : Idle w.loop := hloop ▸ ⟨rfl, rfl⟩
      refine h.idle hidle ?_
      split_ifs <;> exact ⟨rfl, rfl⟩
  | asking fast =>
      have hidle : Idle w.loop := hloop ▸ ⟨rfl, rfl⟩
      refine h.idle hidle ?_
      split_ifs <;> exact ⟨rfl, rfl⟩
  | spawning fast =>
      have hidle : Idle w.loop := hloop ▸ ⟨rfl, rfl⟩
      rw [stepLoop]
      cases draw.spawn with
      | missingBinary => exact h.idle hidle ⟨rfl, rfl⟩
      | failed => exact h.idle hidle (idle_restart fast)
      | ok => exact h.spawn hidle fast
  | adopting fast child => exact h.adopt hloop
  | watching fast child =>
      rw [stepLoop]
      cases hleaves : draw.received.leaves with
      | true =>
          have hdead : draw.received.leaves = true → child ∉ w.alive := by
            have henabled := enabled
            rw [Enabled, hloop] at henabled
            exact henabled
          exact h.leave hloop (hdead hleaves)
      | false =>
          rw [if_neg Bool.false_ne_true, ← hloop]
          exact h
  | clearing fast child => exact h.clear hloop
  | checking fast =>
      have hidle : Idle w.loop := hloop ▸ ⟨rfl, rfl⟩
      refine h.idle hidle ?_
      split_ifs
      · exact ⟨rfl, rfl⟩
      · exact idle_restart fast
      · exact ⟨rfl, rfl⟩
  | sleeping fast =>
      have hidle : Idle w.loop := hloop ▸ ⟨rfl, rfl⟩
      exact h.idle hidle ⟨rfl, rfl⟩
  | returned => exact h

theorem Sound.step (h : w.Sound) (step : SupervisorStep w ev w') : w'.Sound := by
  obtain ⟨enabled, rfl⟩ := step
  cases ev with
  | shutdown => exact h.shutdown
  | loop draw => exact h.loop draw enabled
  | exits c => exact h.exits

/-! ## Shutting down -/

theorem shuttingDown_shutdown (w : AppState) : w.shutdown.shuttingDown = true := by
  unfold AppState.shutdown
  split <;> rfl

theorem shutdown_of_returned (h : w.loop = .returned) :
    w.shutdown.loop = .returned ∧ w.shutdown.spawned = w.spawned := by
  unfold AppState.shutdown
  split <;> exact ⟨h, rfl⟩

/-- The loop never takes a shutdown back. -/
theorem shuttingDown_stepLoop (w : AppState) (draw : LoopDraw) (l : LoopPhase) :
    (w.stepLoop draw l).shuttingDown = w.shuttingDown := by
  cases l with
  | spawning fast =>
      rw [stepLoop]
      cases draw.spawn <;> rfl
  | adopting fast child =>
      rw [stepLoop, adopt]
      split_ifs <;> rfl
  | probing | asking _ | watching _ _ | clearing _ _ | checking _ | sleeping _ | returned => rfl

/-- A shutdown is never taken back. -/
theorem shuttingDown_of_run {trace : List SupervisorEvent} (run : Run SupervisorStep start trace w)
    (h : .shutdown ∈ trace) : w.shuttingDown = true := by
  refine run.invariant_trace (I := fun trace w => .shutdown ∈ trace → w.shuttingDown = true)
    (fun trace w ev w' ih step hmem => ?_) (fun hmem => absurd hmem List.not_mem_nil) h
  obtain ⟨-, rfl⟩ := step
  rcases List.mem_append.mp hmem with hbefore | hnow
  · cases ev with
    | shutdown => exact shuttingDown_shutdown w
    | loop draw => exact (shuttingDown_stepLoop w draw w.loop).trans (ih hbefore)
    | exits c => exact ih hbefore
  · obtain rfl := List.mem_singleton.mp hnow
    exact shuttingDown_shutdown w

/-- A loop that asks after a shutdown returns, and kills the child it has not handed over. -/
theorem returned_of_asks {draw : LoopDraw} (hdown : w.shuttingDown = true)
    (hasks : w.loop.asks = true) : (w.stepLoop draw w.loop).loop = .returned := by
  cases hloop : w.loop with
  | asking fast =>
      show (if w.shuttingDown then LoopPhase.returned else _) = _
      rw [if_pos hdown]
  | adopting fast child =>
      rw [stepLoop, adopt, if_pos hdown]
  | checking fast =>
      show (if w.shuttingDown then LoopPhase.returned else _) = _
      rw [if_pos hdown]
  | probing | spawning _ | watching _ _ | clearing _ _ | sleeping _ | returned =>
      rw [hloop] at hasks
      cases hasks

/-- A loop that has returned spawns no more. -/
theorem returned_of_run {trace : List SupervisorEvent} (run : Run SupervisorStep w trace w')
    (h : w.loop = .returned) : w'.loop = .returned ∧ w'.spawned = w.spawned := by
  refine run.invariant (I := fun w' => w'.loop = .returned ∧ w'.spawned = w.spawned) ?_ ⟨h, rfl⟩
  rintro u ev v ⟨hreturned, hspawned⟩ ⟨enabled, rfl⟩
  cases ev with
  | shutdown =>
      obtain ⟨hloop, hsame⟩ := shutdown_of_returned hreturned
      exact ⟨hloop, hsame.trans hspawned⟩
  | loop draw =>
      rw [Enabled, hreturned] at enabled
      exact enabled.elim
  | exits c => exact ⟨hreturned, hspawned⟩

end AppState

open AppState in
/-- **The bundled daemon is never orphaned or doubled.**  For every interleaving of the steps of
the loop with any number of shutdowns and with children that end at any time: at most one
spawned child is alive, none is killed twice, and a loop that has returned leaves none; and once
a shutdown has returned and the loop has passed its next adoption or shutdown check, no spawned
child is alive and none is spawned later. -/
theorem never_orphaned_or_doubled {trace : List SupervisorEvent} {w : AppState}
    (run : Run SupervisorStep start trace w) :
    w.alive.length ≤ 1 ∧ w.killed.Nodup ∧ (w.loop = .returned → w.alive = []) ∧
    ∀ before draw after u v, Run SupervisorStep start before u → .shutdown ∈ before →
      u.loop.asks = true → SupervisorStep u (.loop draw) v → Run SupervisorStep v after w →
      w.alive = [] ∧ w.spawned = v.spawned := by
  have sound : w.Sound := run.invariant (fun _ _ _ h step => h.step step) sound_start
  have hgone : w.loop = .returned → w.alive = [] := fun hreturned =>
    sound.alive_of_idle (hreturned ▸ ⟨rfl, rfl⟩)
  refine ⟨?_, sound.once, hgone, fun before draw after u v hbefore hdown hasks step hafter => ?_⟩
  · rcases sound.alive with hnil | ⟨c, -, hone⟩
    · rw [hnil]
      exact Nat.zero_le 1
    · rw [hone]
      exact le_rfl
  · obtain ⟨-, rfl⟩ := step
    obtain ⟨hreturned, hspawned⟩ := returned_of_run hafter
      (returned_of_asks (shuttingDown_of_run hbefore hdown) hasks)
    exact ⟨hgone hreturned, hspawned⟩

section Example

/-- The app is closed while the first child is being spawned, and once more afterwards. -/
def quitDuringSpawn : List SupervisorEvent :=
  let draw : LoopDraw := ⟨false, .ok, .output, 0⟩
  [.loop draw, .loop draw, .loop draw, .shutdown, .loop draw, .shutdown]

/-- The app quits while the child is being spawned: the loop kills it. -/
theorem quit_during_spawn_leaves_no_child :
    ((quitDuringSpawn.take 4).foldl AppState.next .start).alive = [0] ∧
    (quitDuringSpawn.foldl AppState.next .start).alive = [] := by
  have run : Run SupervisorStep .start quitDuringSpawn
      (quitDuringSpawn.foldl AppState.next .start) := Run.of_enabled (by decide +kernel)
  have before : Run SupervisorStep .start (quitDuringSpawn.take 4)
      ((quitDuringSpawn.take 4).foldl AppState.next .start) := Run.of_enabled (by decide +kernel)
  have after : Run SupervisorStep ((quitDuringSpawn.take 5).foldl AppState.next .start) [.shutdown]
      (quitDuringSpawn.foldl AppState.next .start) := Run.of_enabled (by decide +kernel)
  have adopts : SupervisorStep ((quitDuringSpawn.take 4).foldl AppState.next .start)
      (.loop ⟨false, .ok, .output, 0⟩) ((quitDuringSpawn.take 5).foldl AppState.next .start) :=
    ⟨by decide +kernel, rfl⟩
  exact ⟨by decide +kernel, ((never_orphaned_or_doubled run).2.2.2 _ _ _ _ _ before
    (.tail _ (.tail _ (.tail _ (.head _)))) rfl adopts after).1⟩

end Example

end Savr
