import Mathlib.Data.List.AList
import Savr.Core.Types
import Savr.Lib.Run

/-!
# The process watcher

`savr-daemon/src/detection/mod.rs`: the poll loop that turns scans of the process list
into `GameStarted` and `GameStopped`, with the settle timer that debounces a stop; and
what `Engine::on_event` makes of these events in the table of play sessions
(`savr-daemon/src/state.rs`).

## Main results

* `Watcher.tick_of` — for one game the loop is the three-state machine `GameWatch`: the
  two maps of the loop hold nothing else about it.
* `GameWatch.alternating_iff` — the edges of a game alternate exactly when no poll sees
  the game again while its stop is pending.

## Design notes

A `HashMap` is an `AList`.  Its order decides in which order one poll sends the events of
*different* games; every statement here is about the events of one game.  `Instant` and
`Duration` count nanoseconds; a poll reads the clock once for each stop it arms and once
more before it fires the settled ones, and nothing here needs these readings to be ordered.
-/

namespace Savr

open LabelledRun

/-- `std::time::Instant`, and `Duration`. -/
abbrev Instant := ℕ

/-- A `HashMap` keyed by game. -/
abbrev GameMap (β : Type) := AList fun _ : GameId => β

/-- The events of the detection. The watcher sends the first two; the others come from the
engine and from the app. -/
inductive DetectionEvent
  | gameStarted (gameId : GameId) (pid : ℕ) (time : Timestamp)
  | gameStopped (gameId : GameId) (time : Timestamp)
  | manualBackupRequested (gameId : GameId)
  | saveDirChanged (gameId : GameId)
  | backupCompleted (gameId : GameId)
  | backupConflict (gameId : GameId)
  | saveAvailable (gameId : GameId)
  | catalogUpdated
  deriving DecidableEq, Repr

/-- What one iteration of the loop reads from outside. The clock is read for each stop that
is armed, and once for all that are due. -/
structure Poll where
  /-- The result of `scan_running_games`. -/
  nowRunning : GameMap ℕ
  /-- `Instant::now()` when the stop of a game is armed. -/
  armedAt : GameId → Instant
  /-- `Instant::now()` when the settled stops are fired. -/
  now : Instant
  /-- `Utc::now()` for the event of a game. -/
  time : GameId → Timestamp

/-- The variables of `run_watcher`. -/
structure Watcher where
  running : GameMap ℕ
  pendingStop : GameMap Instant

namespace Watcher

/-- Before the first poll. -/
def start : Watcher := { running := ∅, pendingStop := ∅ }

/-- Newly started games. -/
def started (w : Watcher) (p : Poll) : List DetectionEvent :=
  p.nowRunning.entries.filterMap fun entry =>
    if entry.1 ∈ w.running then none
    else some (.gameStarted entry.1 entry.2 (p.time entry.1))

/-- A reappearance cancels a pending stop. -/
def cancelled (w : Watcher) (p : Poll) : GameMap Instant :=
  p.nowRunning.keys.foldl (fun pending g => pending.erase g) w.pendingStop

/-- Games that vanished this tick arm a settle timer. -/
def arm (settle : Instant) (p : Poll) (pending : GameMap Instant) (g : GameId) :
    GameMap Instant :=
  if g ∈ p.nowRunning then pending
  else if g ∈ pending then pending
  else pending.insert g (p.armedAt g + settle)

/-- The deadlines after a poll, with those of the games that are gone now. -/
def armed (settle : Instant) (w : Watcher) (p : Poll) : GameMap Instant :=
  w.running.keys.foldl (arm settle p) (w.cancelled p)

/-- The settled stops. -/
def fired (p : Poll) (pending : GameMap Instant) : List GameId :=
  pending.entries.filterMap fun entry =>
    if entry.1 ∉ p.nowRunning ∧ entry.2 ≤ p.now then some entry.1 else none

/-- One iteration of the loop: the variables after it, and the events sent. -/
def tick (settle : Instant) (w : Watcher) (p : Poll) : Watcher × List DetectionEvent :=
  let pending := w.armed settle p
  let settled := fired p pending
  ({ running := p.nowRunning
     pendingStop := settled.foldl (fun pending g => pending.erase g) pending },
    w.started p ++ settled.map fun g => .gameStopped g (p.time g))

/-- `run_watcher` over a list of polls. -/
def run (settle : Instant) : Watcher → List Poll → Watcher × List DetectionEvent
  | w, [] => (w, [])
  | w, p :: polls =>
      let next := w.tick settle p
      let later := run settle next.1 polls
      (later.1, next.2 ++ later.2)

end Watcher

/-! ## Loops over a map -/

section GameMap

variable {β : Type}

/-- Erasing keys one by one. -/
theorem lookup_foldl_erase (keys : List GameId) (m : GameMap β) (g : GameId) :
    (keys.foldl (fun m k => m.erase k) m).lookup g
      = if g ∈ keys then none else m.lookup g := by
  induction keys generalizing m with
  | nil => simp
  | cons k keys ih =>
      rw [List.foldl_cons, ih]
      by_cases hg : g ∈ keys
      · rw [if_pos hg, if_pos (List.mem_cons_of_mem k hg)]
      · by_cases hk : g = k
        · subst hk
          rw [if_neg hg, if_pos (List.mem_cons_self ..), AList.lookup_erase]
        · rw [if_neg hg, if_neg (by simp [hk, hg]), AList.lookup_erase_ne hk]

/-- A loop that only looks at the entry of one key. -/
theorem filterMap_entries {γ : Type} (m : GameMap β) (g : GameId) (f : β → Option γ) :
    (m.entries.filterMap fun entry => if entry.1 = g then f entry.2 else none)
      = ((m.lookup g).bind f).toList := by
  obtain ⟨entries, hnodup⟩ := m
  change entries.filterMap _ = ((entries.dlookup g).bind f).toList
  induction entries with
  | nil => rfl
  | cons entry entries ih =>
      obtain ⟨k, b⟩ := entry
      rw [List.nodupKeys_cons] at hnodup
      by_cases hk : k = g
      · subst hk
        have hnone : entries.dlookup k = none := List.dlookup_eq_none.mpr hnodup.1
        have hrest := ih hnodup.2
        rw [hnone] at hrest
        rw [List.dlookup_cons_eq, Option.bind_some]
        cases hb : f b with
        | none => rw [List.filterMap_cons_none (by simp [hb]), hrest]; rfl
        | some c => rw [List.filterMap_cons_some (b := c) (by simp [hb]), hrest]; rfl
      · rw [List.filterMap_cons_none (by simp [hk]), ih hnodup.2,
          List.dlookup_cons_ne _ _ (Ne.symm hk)]

end GameMap

/-! ## One game -/

/-- What the watcher tells of one game. -/
inductive Edge
  | started
  | stopped
  deriving DecidableEq, Repr

/-- The edge of game `g` that an event reports. -/
def DetectionEvent.edge (g : GameId) : DetectionEvent → Option Edge
  | .gameStarted g' _ _ => if g' = g then some .started else none
  | .gameStopped g' _ => if g' = g then some .stopped else none
  | _ => none

/-- What the events tell of one game, in order. -/
def edgesOf (g : GameId) (events : List DetectionEvent) : List Edge :=
  events.filterMap (DetectionEvent.edge g)

/-- What the loop holds about one game. -/
@[ext]
structure GameWatch where
  /-- The last scan saw the game. -/
  present : Bool
  /-- The stop that is pending. -/
  deadline : Option Instant
  deriving DecidableEq, Repr

/-- What one poll reads about one game. -/
structure Sight where
  seen : Bool
  armedAt : Instant
  now : Instant

/-- What a poll sees of one game. -/
def Poll.sight (p : Poll) (g : GameId) : Sight :=
  { seen := decide (g ∈ p.nowRunning), armedAt := p.armedAt g, now := p.now }

/-- What the watcher knows of one game. -/
def Watcher.of (w : Watcher) (g : GameId) : GameWatch :=
  { present := decide (g ∈ w.running), deadline := w.pendingStop.lookup g }

namespace GameWatch

/-- The deadline a poll that does not see the game works with. -/
def due (settle : Instant) (v : GameWatch) (s : Sight) : Option Instant :=
  v.deadline <|> if v.present then some (s.armedAt + settle) else none

/-- `tick`, for one game: what one iteration does to its part of the two maps, and what it
sends about it. -/
def tick (settle : Instant) (v : GameWatch) (s : Sight) : GameWatch × List Edge :=
  if s.seen then
    ({ present := true, deadline := none }, if v.present then [] else [.started])
  else
    match v.due settle s with
    | none => ({ present := false, deadline := none }, [])
    | some d =>
        if d ≤ s.now then ({ present := false, deadline := none }, [.stopped])
        else ({ present := false, deadline := some d }, [])

/-- One poll after the other. -/
def run (settle : Instant) : GameWatch → List Sight → GameWatch × List Edge
  | v, [] => (v, [])
  | v, s :: sights =>
      let next := v.tick settle s
      let later := run settle next.1 sights
      (later.1, next.2 ++ later.2)

end GameWatch

namespace Watcher

theorem lookup_cancelled (w : Watcher) (p : Poll) (g : GameId) :
    (w.cancelled p).lookup g = if g ∈ p.nowRunning then none else w.pendingStop.lookup g := by
  rw [cancelled, lookup_foldl_erase]
  simp only [AList.mem_keys]

/-- Arming a game that is gone keeps an earlier deadline. -/
theorem lookup_arm_self (settle : Instant) (p : Poll) (m : GameMap Instant) (g : GameId) :
    (arm settle p m g).lookup g
      = if g ∈ p.nowRunning then m.lookup g
        else m.lookup g <|> some (p.armedAt g + settle) := by
  rw [arm]
  split_ifs with hseen hmem
  · rfl
  · obtain ⟨d, hd⟩ := Option.isSome_iff_exists.mp (AList.lookup_isSome.mpr hmem)
    rw [hd]
    rfl
  · rw [AList.lookup_insert, AList.lookup_eq_none.mpr hmem]
    rfl

theorem lookup_arm_ne (settle : Instant) (p : Poll) (m : GameMap Instant) {g k : GameId}
    (hk : g ≠ k) : (arm settle p m k).lookup g = m.lookup g := by
  rw [arm]
  split_ifs
  · rfl
  · rfl
  · exact AList.lookup_insert_ne hk

/-- Arming games one by one. -/
theorem lookup_foldl_arm (settle : Instant) (p : Poll) (keys : List GameId)
    (m : GameMap Instant) (g : GameId) :
    (keys.foldl (arm settle p) m).lookup g
      = if g ∈ keys ∧ g ∉ p.nowRunning then m.lookup g <|> some (p.armedAt g + settle)
        else m.lookup g := by
  induction keys generalizing m with
  | nil => simp
  | cons k keys ih =>
      rw [List.foldl_cons, ih]
      by_cases hk : g = k
      · subst hk
        rw [lookup_arm_self]
        by_cases hseen : g ∈ p.nowRunning
        · simp [hseen]
        · cases m.lookup g <;> simp [hseen]
      · rw [lookup_arm_ne settle p m hk]
        simp [hk]

/-- The deadline of a game after the vanished games are armed. -/
theorem lookup_armed (settle : Instant) (w : Watcher) (p : Poll) (g : GameId) :
    (w.armed settle p).lookup g
      = if g ∈ p.nowRunning then none else (w.of g).due settle (p.sight g) := by
  rw [armed, lookup_foldl_arm, lookup_cancelled, GameWatch.due]
  simp only [← AList.mem_keys]
  by_cases hseen : g ∈ p.nowRunning
  · simp [hseen]
  · by_cases hrun : g ∈ w.running <;> simp [hseen, hrun, of, Poll.sight]

/-- A game is started when it appears. -/
theorem edgesOf_started (w : Watcher) (p : Poll) (g : GameId) :
    edgesOf g (w.started p)
      = if g ∈ p.nowRunning ∧ g ∉ w.running then [.started] else [] := by
  have hloop : edgesOf g (w.started p)
      = p.nowRunning.entries.filterMap fun entry =>
          if entry.1 = g then (if g ∈ w.running then none else some Edge.started) else none := by
    rw [edgesOf, started, List.filterMap_filterMap]
    refine congrArg (List.filterMap · _) (funext fun entry => ?_)
    by_cases hg : entry.1 = g
    · by_cases hrun : g ∈ w.running <;> simp [hg, hrun, DetectionEvent.edge]
    · by_cases hrun : entry.1 ∈ w.running <;> simp [hg, hrun, DetectionEvent.edge]
  rw [hloop, filterMap_entries p.nowRunning g fun _ => _]
  by_cases hseen : g ∈ p.nowRunning
  · obtain ⟨pid, hpid⟩ := Option.isSome_iff_exists.mp (AList.lookup_isSome.mpr hseen)
    by_cases hrun : g ∈ w.running <;> simp [hseen, hrun, hpid]
  · rw [AList.lookup_eq_none.mpr hseen]
    simp [hseen]

/-- A game is fired when it is absent and its deadline has come. -/
theorem mem_fired_iff (p : Poll) (m : GameMap Instant) (g : GameId) :
    g ∈ fired p m ↔ g ∉ p.nowRunning ∧ ∃ d, m.lookup g = some d ∧ d ≤ p.now := by
  rw [fired, List.mem_filterMap]
  constructor
  · rintro ⟨⟨k, d⟩, hmem, hcond⟩
    split_ifs at hcond with h
    obtain rfl : k = g := by simpa using hcond
    exact ⟨h.1, d, AList.mem_lookup_iff.mpr hmem, h.2⟩
  · rintro ⟨hseen, d, hd, hle⟩
    exact ⟨⟨g, d⟩, AList.mem_lookup_iff.mp hd, if_pos ⟨hseen, hle⟩⟩

/-- A game that fires is stopped once. -/
theorem edgesOf_stopped (p : Poll) (m : GameMap Instant) (g : GameId) :
    edgesOf g ((fired p m).map fun g' => .gameStopped g' (p.time g'))
      = if g ∈ fired p m then [.stopped] else [] := by
  have hloop : edgesOf g ((fired p m).map fun g' => .gameStopped g' (p.time g'))
      = m.entries.filterMap fun entry =>
          if entry.1 = g then
            (if g ∉ p.nowRunning ∧ entry.2 ≤ p.now then some Edge.stopped else none)
          else none := by
    rw [edgesOf, fired, List.filterMap_map, List.filterMap_filterMap]
    refine congrArg (List.filterMap · _) (funext fun entry => ?_)
    by_cases hg : entry.1 = g
    · subst hg
      by_cases hcond : entry.1 ∉ p.nowRunning ∧ entry.2 ≤ p.now <;>
        simp [hcond, DetectionEvent.edge]
    · by_cases hcond : entry.1 ∉ p.nowRunning ∧ entry.2 ≤ p.now <;>
        simp [hcond, hg, DetectionEvent.edge]
  rw [hloop, filterMap_entries m g fun d =>
    if g ∉ p.nowRunning ∧ d ≤ p.now then some Edge.stopped else none]
  simp only [mem_fired_iff]
  cases hd : m.lookup g with
  | none => simp
  | some d => by_cases hcond : g ∉ p.nowRunning ∧ d ≤ p.now <;> simp [hcond]

/-- For one game, one iteration of the loop is one step of the machine of the game. -/
theorem tick_of (settle : Instant) (w : Watcher) (p : Poll) (g : GameId) :
    (w.tick settle p).1.of g = ((w.of g).tick settle (p.sight g)).1 ∧
      edgesOf g (w.tick settle p).2 = ((w.of g).tick settle (p.sight g)).2 := by
  have hstate : (w.tick settle p).1.of g
      = { present := decide (g ∈ p.nowRunning)
          deadline := if g ∈ fired p (w.armed settle p) then none
            else (w.armed settle p).lookup g } := by
    refine GameWatch.ext rfl ?_
    exact lookup_foldl_erase _ _ g
  have hedges : edgesOf g (w.tick settle p).2
      = (if g ∈ p.nowRunning ∧ g ∉ w.running then [.started] else [])
        ++ (if g ∈ fired p (w.armed settle p) then [.stopped] else []) := by
    rw [← edgesOf_started, ← edgesOf_stopped]
    exact List.filterMap_append ..
  rw [hstate, hedges]
  simp only [mem_fired_iff, lookup_armed]
  by_cases hseen : g ∈ p.nowRunning
  · simp [GameWatch.tick, hseen, Poll.sight, of]
  · have hsight : (p.sight g).seen = false := by simp [Poll.sight, hseen]
    have hnow : (p.sight g).now = p.now := rfl
    cases hdue : (w.of g).due settle (p.sight g) with
    | none => simp [GameWatch.tick, hsight, hdue, hseen]
    | some d =>
        by_cases hle : d ≤ p.now <;> simp [GameWatch.tick, hsight, hdue, hseen, hle, hnow]

/-- For one game, the loop is the machine of the game. -/
theorem run_of (settle : Instant) (w : Watcher) (polls : List Poll) (g : GameId) :
    (run settle w polls).1.of g = ((w.of g).run settle (polls.map (·.sight g))).1 ∧
      edgesOf g (run settle w polls).2 = ((w.of g).run settle (polls.map (·.sight g))).2 := by
  induction polls generalizing w with
  | nil => exact ⟨rfl, rfl⟩
  | cons p polls ih =>
      obtain ⟨hstate, hedges⟩ := tick_of settle w p g
      obtain ⟨hlater, hmore⟩ := ih (w.tick settle p).1
      rw [hstate] at hlater hmore
      refine ⟨hlater, ?_⟩
      rw [List.map_cons, GameWatch.run, ← hmore, ← hedges]
      exact List.filterMap_append ..

end Watcher

/-! ## Alternation -/

/-- `GameStarted`, `GameStopped`, `GameStarted`, …, from a point where a session is open or
not. -/
def Alternating : Bool → List Edge → Prop
  | _, [] => True
  | isOpen, .started :: edges => isOpen = false ∧ Alternating true edges
  | isOpen, .stopped :: edges => isOpen = true ∧ Alternating false edges

namespace GameWatch

/-- The game runs, or its stop has not settled yet. -/
def isOpen (v : GameWatch) : Bool := v.present || v.deadline.isSome

/-- A stop is pending only while the game is gone. -/
def Settled (v : GameWatch) : Prop := v.present = true → v.deadline = none

/-- The poll sees a game again whose stop is pending. -/
def Flap (v : GameWatch) (s : Sight) : Prop := v.deadline.isSome ∧ s.seen

/-- After a tick a present game has no deadline. -/
theorem settled_tick (settle : Instant) (v : GameWatch) (s : Sight) :
    (v.tick settle s).1.Settled := by
  intro hpresent
  rw [tick] at hpresent ⊢
  cases hseen : s.seen
  · cases hdue : v.due settle s with
    | none => simp [hseen, hdue] at hpresent
    | some d => by_cases hle : d ≤ s.now <;> simp [hseen, hdue, hle] at hpresent
  · rfl

/-- A poll that is no flap moves the machine as its edges say. -/
theorem alternating_tick_iff (settle : Instant) {v : GameWatch} (hv : v.Settled) {s : Sight}
    (hs : ¬ v.Flap s) (later : List Edge) :
    Alternating v.isOpen ((v.tick settle s).2 ++ later) ↔
      Alternating (v.tick settle s).1.isOpen later := by
  obtain ⟨present, deadline⟩ := v
  cases hseen : s.seen
  · -- The game is gone: its stop fires, or stays pending, or there is none.
    cases deadline with
    | some d =>
        have hpresent : present = false := by
          cases present
          · rfl
          · cases hv rfl
        by_cases hle : d ≤ s.now <;>
          simp [tick, due, isOpen, hseen, hle, hpresent, Alternating]
    | none =>
        cases present
        · simp [tick, due, isOpen, hseen]
        · by_cases hle : s.armedAt + settle ≤ s.now <;>
            simp [tick, due, isOpen, hseen, hle, Alternating]
  · -- The game is there, and no stop was pending.
    obtain rfl : deadline = none := by
      cases deadline with
      | none => rfl
      | some d => exact absurd ⟨rfl, hseen⟩ hs
    cases present <;> simp [tick, isOpen, hseen, Alternating]

/-- A flap starts a session that is open already. -/
theorem not_alternating_of_flap (settle : Instant) {v : GameWatch} (hv : v.Settled) {s : Sight}
    (hs : v.Flap s) (later : List Edge) :
    ¬ Alternating v.isOpen ((v.tick settle s).2 ++ later) := by
  obtain ⟨present, deadline⟩ := v
  obtain ⟨hpending, hseen⟩ := hs
  have hpresent : present = false := by
    cases present
    · rfl
    · cases deadline with
      | none => cases hpending
      | some d => cases hv rfl
  have hopen : isOpen { present, deadline } = true := by simp [isOpen, hpending]
  have hedges : (tick settle { present, deadline } s).2 = [.started] := by
    simp [tick, hseen, hpresent]
  rw [hedges, hopen]
  rintro ⟨hclosed, -⟩
  cases hclosed

/-- No poll of the run is a flap. -/
abbrev NoFlap (settle : Instant) (v : GameWatch) (sights : List Sight) : Prop :=
  EnabledAll (fun v s => ¬ v.Flap s) (fun v s => (v.tick settle s).1) v sights

/-- The edges of a run alternate exactly when none of its polls is a flap. -/
theorem alternating_iff (settle : Instant) {v : GameWatch} (hv : v.Settled)
    (sights : List Sight) :
    Alternating v.isOpen (v.run settle sights).2 ↔ NoFlap settle v sights := by
  induction sights generalizing v with
  | nil => exact Iff.rfl
  | cons s sights ih =>
      rw [run, NoFlap, EnabledAll]
      by_cases hflap : v.Flap s
      · exact iff_of_false (not_alternating_of_flap settle hv hflap _) fun h => h.1 hflap
      · rw [alternating_tick_iff settle hv hflap, ih (settled_tick settle v s),
          and_iff_right hflap]

theorem run_eq_foldl (settle : Instant) (v : GameWatch) (sights : List Sight) :
    (v.run settle sights).1 = sights.foldl (fun v s => (v.tick settle s).1) v := by
  induction sights generalizing v with
  | nil => rfl
  | cons s sights ih => exact ih _

/-- A pending stop stays pending until its deadline. -/
theorem deadline_run (settle : Instant) {v : GameWatch} {d : Instant}
    (hv : v.deadline = some d) {sights : List Sight}
    (hgone : ∀ s ∈ sights, s.seen = false ∧ s.now < d) :
    (v.run settle sights).1.deadline = some d := by
  induction sights generalizing v with
  | nil => exact hv
  | cons s sights ih =>
      obtain ⟨hseen, hnow⟩ := hgone s (List.mem_cons_self ..)
      refine ih ?_ fun s' hs' => hgone s' (List.mem_cons_of_mem s hs')
      simp [tick, due, hseen, hv, Nat.not_le.mpr hnow]

/-- The first poll that misses a running game arms its stop. -/
theorem deadline_tick (settle : Instant) {v : GameWatch} (hv : v.Settled)
    (hpresent : v.present = true) {s : Sight} (hseen : s.seen = false)
    (hnow : s.now < s.armedAt + settle) :
    (v.tick settle s).1.deadline = some (s.armedAt + settle) := by
  simp [tick, due, hseen, hv hpresent, hpresent, Nat.not_le.mpr hnow]

end GameWatch

/-! ## Play sessions -/

/-- A row of `play_stats`. -/
structure PlayRow where
  sessionStart : Option Timestamp
  lastPlayed : Option Timestamp
  lastSessionSecs : Option ℕ
  totalSecs : ℕ
  deriving DecidableEq, Repr

/-- The table `play_stats`. -/
abbrev PlayStats := GameId → Option PlayRow

namespace PlayStats

/-- Open a play session. -/
def playStart (t : PlayStats) (g : GameId) (time : Timestamp) : PlayStats :=
  Function.update t g (some ((t g).elim
    { sessionStart := some time, lastPlayed := some time, lastSessionSecs := none, totalSecs := 0 }
    fun row => { row with sessionStart := some time, lastPlayed := some time }))

/-- Close a play session. If none is open, only `last_played` is refreshed; a clock that went
backwards adds nothing. -/
def playStop (t : PlayStats) (g : GameId) (time : Timestamp) : PlayStats :=
  match t g with
  | none => Function.update t g (some
      { sessionStart := none, lastPlayed := some time, lastSessionSecs := none, totalSecs := 0 })
  | some row =>
      match row.sessionStart with
      | none => Function.update t g (some { row with lastPlayed := some time })
      | some started =>
          -- Whole seconds, and none if the clock went backwards.
          let secs := (time - started) / 10 ^ 9
          Function.update t g (some
            { sessionStart := none, lastPlayed := some time, lastSessionSecs := some secs
              totalSecs := row.totalSecs + secs })

/-- Clear any session left open by a daemon that died mid-play. -/
def closeOrphanedSessions (t : PlayStats) : PlayStats :=
  fun g => (t g).map fun row => { row with sessionStart := none }

/-- A session of the game is open. -/
def isOpen (t : PlayStats) (g : GameId) : Bool := ((t g).bind PlayRow.sessionStart).isSome

/-- A start opens the session of its game and of no other. -/
theorem isOpen_playStart (t : PlayStats) (g g' : GameId) (time : Timestamp) :
    (t.playStart g' time).isOpen g = if g' = g then true else t.isOpen g := by
  rw [isOpen, playStart]
  by_cases hg : g' = g
  · subst hg
    rw [Function.update_self, if_pos rfl]
    cases t g' <;> rfl
  · rw [Function.update_of_ne (Ne.symm hg), if_neg hg]
    rfl

/-- A stop closes the session of its game alone. -/
theorem isOpen_playStop (t : PlayStats) (g g' : GameId) (time : Timestamp) :
    (t.playStop g' time).isOpen g = if g' = g then false else t.isOpen g := by
  rw [isOpen, playStop]
  by_cases hg : g' = g
  · subst hg
    rw [if_pos rfl]
    rcases hrow : t g' with _ | row
    · simp
    · cases hstart : row.sessionStart <;> simp [hstart]
  · rw [if_neg hg]
    rcases hrow : t g' with _ | row
    · simp [Function.update_of_ne (Ne.symm hg), isOpen]
    · cases hstart : row.sessionStart <;>
        simp [hstart, Function.update_of_ne (Ne.symm hg), isOpen]

theorem isOpen_closeOrphanedSessions (t : PlayStats) (g : GameId) :
    t.closeOrphanedSessions.isOpen g = false := by
  rw [isOpen, closeOrphanedSessions]
  cases t g <;> rfl

end PlayStats

/-- What the event loop of the engine changes: the play table, and the games shown as
running. -/
structure PlayEngine where
  stats : PlayStats
  running : Finset GameId

namespace PlayEngine

/-- `Engine::on_event`. The result is a game to be backed up: the one that has stopped, or
the one that the user asked for. -/
def onEvent (e : PlayEngine) : DetectionEvent → PlayEngine × Option GameId
  | .gameStarted g _ time =>
      ({ stats := e.stats.playStart g time, running := insert g e.running }, none)
  | .gameStopped g time =>
      ({ stats := e.stats.playStop g time, running := e.running.erase g }, some g)
  | .manualBackupRequested g => (e, some g)
  | .saveDirChanged _ | .backupCompleted _ | .backupConflict _ | .saveAvailable _
  | .catalogUpdated => (e, none)

/-- `on_event` for each event. -/
def onEvents (e : PlayEngine) (events : List DetectionEvent) : PlayEngine :=
  events.foldl (fun e event => (e.onEvent event).1) e

/-- `play_start` is never called for game `g` while a session of it is open. -/
def NeverRestarts (e : PlayEngine) (events : List DetectionEvent) (g : GameId) : Prop :=
  ∀ before pid time after, events = before ++ .gameStarted g pid time :: after →
    (e.onEvents before).stats.isOpen g = false

/-- A session is open after an event when the event opened it, or left it open. -/
theorem isOpen_onEvent (e : PlayEngine) (event : DetectionEvent) (g : GameId) :
    (e.onEvent event).1.stats.isOpen g
      = (event.edge g).elim (e.stats.isOpen g) (· == .started) := by
  cases event with
  | gameStarted g' _ time =>
      rw [onEvent, PlayStats.isOpen_playStart, DetectionEvent.edge]
      by_cases hg : g' = g <;> simp [hg]
  | gameStopped g' time =>
      rw [onEvent, PlayStats.isOpen_playStop, DetectionEvent.edge]
      by_cases hg : g' = g <;> simp [hg]
  | _ => rfl

/-- Where the edges of a game alternate, no open session is restarted. -/
theorem neverRestarts_of_alternating {e : PlayEngine} {events : List DetectionEvent}
    {g : GameId} (h : Alternating (e.stats.isOpen g) (edgesOf g events)) :
    e.NeverRestarts events g := by
  intro before pid time after hsplit
  induction before generalizing e events with
  | nil =>
      subst hsplit
      rw [List.nil_append, edgesOf, List.filterMap_cons_some (b := .started)
        (by simp [DetectionEvent.edge])] at h
      exact h.1
  | cons event before ih =>
      subst hsplit
      have hrest : Alternating ((e.onEvent event).1.stats.isOpen g)
          (edgesOf g (before ++ .gameStarted g pid time :: after)) := by
        rw [isOpen_onEvent]
        rw [List.cons_append, edgesOf] at h
        cases hedge : event.edge g with
        | none => rwa [List.filterMap_cons_none hedge] at h
        | some edge =>
            rw [List.filterMap_cons_some hedge] at h
            cases edge
            · exact h.2
            · exact h.2
      exact ih hrest rfl

end PlayEngine

/-! ## The loop as a whole -/

namespace Watcher

/-- A game that disappears and is seen again within the settle window causes no event. -/
def FlapsSilent (settle : Instant) (polls : List Poll) (g : GameId) : Prop :=
  ∀ before first more back after,
    polls = (before ++ first :: more) ++ back :: after →
    g ∈ (run settle start before).1.running →
    (∀ p ∈ first :: more, g ∉ p.nowRunning ∧ p.now < first.armedAt g + settle) →
    g ∈ back.nowRunning →
    edgesOf g (run settle (run settle start before).1 (first :: more ++ [back])).2 = []

theorem run_eq_foldl (settle : Instant) (w : Watcher) (polls : List Poll) :
    (run settle w polls).1 = polls.foldl (fun w p => (w.tick settle p).1) w := by
  induction polls generalizing w with
  | nil => rfl
  | cons p polls ih => exact ih _

theorem settled_run_start (settle : Instant) (polls : List Poll) (g : GameId) :
    ((run settle start polls).1.of g).Settled := by
  induction polls using List.reverseRecOn with
  | nil => exact fun _ => rfl
  | append_singleton polls p _ =>
      rw [run_eq_foldl, List.foldl_append, List.foldl_cons, List.foldl_nil, (tick_of ..).1]
      exact GameWatch.settled_tick settle _ _

/-- The stop of a game that vanished is pending until it settles. -/
theorem pending_of_gone {settle : Instant} {before more : List Poll} {first : Poll} {g : GameId}
    (hrunning : g ∈ (run settle start before).1.running)
    (hgone : ∀ p ∈ first :: more, g ∉ p.nowRunning ∧ p.now < first.armedAt g + settle) :
    g ∈ (run settle start (before ++ first :: more)).1.pendingStop := by
  have hsight : ∀ p ∈ first :: more, (p.sight g).seen = false :=
    fun p hp => decide_eq_false (hgone p hp).1
  have harmed := GameWatch.deadline_tick settle (settled_run_start settle before g)
    (decide_eq_true hrunning) (hsight first (List.mem_cons_self ..))
    (hgone first (List.mem_cons_self ..)).2
  rw [← (tick_of ..).1] at harmed
  have hkept : (((tick settle (run settle start before).1 first).1.of g).run settle
      (more.map (·.sight g))).1.deadline = some (first.armedAt g + settle) := by
    refine GameWatch.deadline_run settle harmed ?_
    intro s hs
    obtain ⟨p, hp, rfl⟩ := List.mem_map.mp hs
    exact ⟨hsight p (List.mem_cons_of_mem first hp), (hgone p (List.mem_cons_of_mem first hp)).2⟩
  rw [← (run_of ..).1] at hkept
  have hrun : (run settle start (before ++ first :: more)).1
      = (run settle (tick settle (run settle start before).1 first).1 more).1 := by
    simp only [run_eq_foldl, List.foldl_append, List.foldl_cons]
  rw [hrun]
  exact AList.lookup_isSome.mp (Option.isSome_iff_exists.mpr ⟨_, hkept⟩)

/-- No poll of the run sees a game again whose stop is pending. -/
abbrev NoFlap (settle : Instant) (g : GameId) (polls : List Poll) : Prop :=
  EnabledAll (fun w p => ¬ (g ∈ w.pendingStop ∧ g ∈ p.nowRunning))
    (fun w p => (tick settle w p).1) start polls

/-- The starts and stops of a game alternate exactly when it does not flap. -/
theorem alternating_iff (settle : Instant) (polls : List Poll) (g : GameId) :
    Alternating false (edgesOf g (run settle start polls).2) ↔ NoFlap settle g polls := by
  have hstep : NoFlap settle g polls ↔
      GameWatch.NoFlap settle (start.of g) (polls.map (·.sight g)) := by
    refine EnabledAll.map_iff (fun w : Watcher => w.of g) (fun p : Poll => p.sight g) ?_
      fun w p => (tick_of ..).1
    intro w p
    simp [GameWatch.Flap, of, Poll.sight, AList.lookup_isSome]
  rw [hstep, (run_of ..).2]
  exact GameWatch.alternating_iff settle (settled_run_start settle [] g) _

theorem flapsSilent_of_noFlap {settle : Instant} {polls : List Poll} {g : GameId}
    (h : NoFlap settle g polls) : FlapsSilent settle polls g := by
  intro before first more back after hsplit hrunning hgone hback
  subst hsplit
  obtain ⟨-, hflap, -⟩ := EnabledAll.append_iff.mp h
  rw [← run_eq_foldl] at hflap
  exact absurd ⟨pending_of_gone hrunning hgone, hback⟩ hflap

/-- For every game, the events alternate, a flap is silent and no open session is restarted
exactly when no poll sees the game again while its stop is pending. -/
theorem alternation_iff (settle : Instant) (polls : List Poll) (g : GameId) (stats : PlayStats) :
    (Alternating false (edgesOf g (run settle start polls).2) ∧
      FlapsSilent settle polls g ∧
      PlayEngine.NeverRestarts { stats := stats.closeOrphanedSessions, running := ∅ }
        (run settle start polls).2 g) ↔
      EnabledAll (fun w p => ¬ (g ∈ w.pendingStop ∧ g ∈ p.nowRunning))
        (fun w p => (tick settle w p).1) start polls := by
  constructor
  · rintro ⟨halternating, -⟩
    exact (alternating_iff settle polls g).mp halternating
  · intro hflap
    have halternating := (alternating_iff settle polls g).mpr hflap
    refine ⟨halternating, flapsSilent_of_noFlap hflap, ?_⟩
    refine PlayEngine.neverRestarts_of_alternating ?_
    rwa [PlayStats.isOpen_closeOrphanedSessions]

section Example

/-- A poll that sees game 7, or does not. -/
def pollOfSeven (seen : Bool) (clock : Instant) : Poll where
  nowRunning := if seen then AList.singleton 7 4242 else ∅
  armedAt := fun _ => clock
  now := clock
  time := fun _ => clock

/-- Game 7 is missed by one poll, and is there again well within the settle window. -/
def flappingPolls : List Poll := [pollOfSeven true 0, pollOfSeven false 2, pollOfSeven true 4]

/-- The flap starts the game a second time, and the open session of the game is restarted. -/
theorem flap_starts_twice :
    edgesOf 7 (run 10 start flappingPolls).2 = [.started, .started] ∧
    ¬ Alternating false (edgesOf 7 (run 10 start flappingPolls).2) ∧
    ¬ FlapsSilent 10 flappingPolls 7 ∧
    ¬ PlayEngine.NeverRestarts { stats := fun _ => none, running := ∅ }
      (run 10 start flappingPolls).2 7 := by
  have hevents : (run 10 start flappingPolls).2
      = [.gameStarted 7 4242 0, .gameStarted 7 4242 4] := by decide
  refine ⟨by decide, ?_, ?_, ?_⟩
  · rw [hevents]
    rintro ⟨-, hclosed, -⟩
    cases hclosed
  · intro hsilent
    have hnone := hsilent [pollOfSeven true 0] (pollOfSeven false 2) [] (pollOfSeven true 4) []
      rfl (by decide) (by decide) (by decide)
    revert hnone
    decide
  · intro hnever
    have hclosed := hnever [.gameStarted 7 4242 0] 4242 4 [] hevents
    revert hclosed
    decide

end Example

end Watcher

end Savr
