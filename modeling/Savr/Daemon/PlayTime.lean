import Savr.Daemon.Watcher

/-!
# Play time

The two halves of `Engine::on_event`, `GuiRequest::ListGames` of `savr-daemon/src/engine.rs`,
and the table `play_stats` of `savr-daemon/src/state.rs` over all lives of the daemon.  A listing
takes the lock of the running games first and then reads the table; an event is written to the
table first and then shown as running; and the daemon may end anywhere.

## Main results

* `rowOf_cons` — a row is a function of the writes that went through.
* `play_time_accounted` — what a row counts, and that it is no more than the time that passed.
* `playing_was_played` — a game that is shown as running is shown with when it was played.
-/

namespace Savr

open LabelledRun

/-! ## What a row counts -/

/-- A write to `play_stats` that went through. -/
inductive PlayMark
  | start (g : GameId) (time : Timestamp)
  | stop (g : GameId) (time : Timestamp)
  /-- `close_orphaned_sessions`, when the daemon starts. -/
  | boot
  deriving DecidableEq, Repr

namespace PlayMark

/-- The mark starts or ends a session of the game. -/
def concerns (g : GameId) : PlayMark → Bool
  | start g' _ | stop g' _ => g' = g
  | boot => true

/-- When the mark is about this game, its time. -/
def timeOf (g : GameId) : PlayMark → Option Timestamp
  | start g' t | stop g' t => if g' = g then some t else none
  | boot => none

/-- The time of a mark; a start of the daemon has none that is stored. -/
def time : PlayMark → Option Timestamp
  | start _ t | stop _ t => some t
  | boot => none

/-- What the mark does to the table. -/
def apply (t : PlayStats) : PlayMark → PlayStats
  | start g time => t.playStart g time
  | stop g time => t.playStop g time
  | boot => t.closeOrphanedSessions

end PlayMark

section Marks

variable (g : GameId)

/-- When the session began that no later mark ends; the latest mark comes first. -/
def openSince (log : List PlayMark) : Option Timestamp :=
  match log.find? (PlayMark.concerns g) with
  | some (.start _ t) => some t
  | _ => none

/-- The sessions that were seen to end, each from the start right before it. -/
def sessions : List PlayMark → List (Timestamp × Timestamp)
  | [] => []
  | .stop g' t :: earlier =>
      (if g' = g then (openSince g earlier).map fun began => (began, t) else none).toList
        ++ sessions earlier
  | .start _ _ :: earlier | .boot :: earlier => sessions earlier

/-- Whole seconds, and none if the clock went backwards. -/
def sessionSecs (session : Timestamp × Timestamp) : ℕ := (session.2 - session.1) / 10 ^ 9

/-- The played time that a log amounts to. -/
def totalSecs (log : List PlayMark) : ℕ := ((sessions g log).map sessionSecs).sum

/-- The row of a game after these writes. -/
def rowOf (log : List PlayMark) : Option PlayRow :=
  (log.findSome? (PlayMark.timeOf g)).map fun lastPlayed =>
    { sessionStart := openSince g log
      lastPlayed := some lastPlayed
      lastSessionSecs := (sessions g log).head?.map sessionSecs
      totalSecs := totalSecs g log }

variable {g} {g' : GameId} {t : Timestamp} {log : List PlayMark} {m : PlayMark}

theorem openSince_cons_of_not (h : m.concerns g = false) :
    openSince g (m :: log) = openSince g log := by
  rw [openSince, List.find?_cons_of_neg (by simp [h]), openSince]

@[simp]
theorem openSince_start : openSince g (.start g t :: log) = some t := by
  rw [openSince, List.find?_cons_of_pos (by simp [PlayMark.concerns])]

@[simp]
theorem openSince_stop : openSince g (.stop g t :: log) = none := by
  rw [openSince, List.find?_cons_of_pos (by simp [PlayMark.concerns])]

@[simp]
theorem openSince_boot : openSince g (.boot :: log) = none := by
  rw [openSince, List.find?_cons_of_pos (by rfl)]

/-- A session of a game begins with a mark of the game. -/
theorem openSince_none (h : log.findSome? (PlayMark.timeOf g) = none) : openSince g log = none := by
  rw [openSince]
  cases hfind : log.find? (PlayMark.concerns g) with
  | none => rfl
  | some m =>
      have hconcerns := List.find?_some hfind
      have hnone := List.findSome?_eq_none_iff.mp h m (List.mem_of_find?_eq_some hfind)
      cases m with
      | start g' t =>
          have hg : g' = g := by simpa [PlayMark.concerns] using hconcerns
          simp [PlayMark.timeOf, hg] at hnone
      | stop | boot => rfl

/-- A game without a mark has no sessions. -/
theorem sessions_nil_of_none (h : log.findSome? (PlayMark.timeOf g) = none) :
    sessions g log = [] := by
  induction log with
  | nil => rfl
  | cons m log ih =>
      obtain ⟨hm, hlog⟩ := List.findSome?_eq_none_iff.mp h |> List.forall_mem_cons.mp
      have ih := ih (List.findSome?_eq_none_iff.mpr hlog)
      cases m with
      | start | boot => exact ih
      | stop g' t =>
          have hg : g' ≠ g := by
            rintro rfl
            simp [PlayMark.timeOf] at hm
          rw [sessions, if_neg hg, ih]
          rfl

/-- A mark of another game changes nothing. -/
theorem rowOf_cons_of_ne (h : m.concerns g = false) : rowOf g (m :: log) = rowOf g log := by
  have htime : m.timeOf g = none := by
    cases m with
    | start g' t | stop g' t => simpa [PlayMark.timeOf, PlayMark.concerns] using h
    | boot => rfl
  have hsessions : sessions g (m :: log) = sessions g log := by
    cases m with
    | start | boot => rfl
    | stop g' t =>
        have hg : g' ≠ g := by simpa [PlayMark.concerns] using h
        rw [sessions, if_neg hg]
        rfl
  rw [rowOf, List.findSome?_cons_of_isNone (by rw [htime]; rfl), openSince_cons_of_not h,
    totalSecs, hsessions]
  rfl

/-- A start opens a session over whatever the row has. -/
theorem rowOf_start : rowOf g (.start g t :: log) = some ((rowOf g log).elim
    { sessionStart := some t, lastPlayed := some t, lastSessionSecs := none, totalSecs := 0 }
    fun row => { row with sessionStart := some t, lastPlayed := some t }) := by
  have htime : (PlayMark.start g t).timeOf g = some t := if_pos rfl
  rw [rowOf, List.findSome?_cons, htime, openSince_start]
  cases hlast : log.findSome? (PlayMark.timeOf g) with
  | none => simp [rowOf, hlast, totalSecs, sessions, sessions_nil_of_none hlast]
  | some last => simp [rowOf, hlast, totalSecs, sessions]

/-- What a stop makes of the row. -/
theorem rowOf_stop : rowOf g (.stop g t :: log) = some
    { sessionStart := none
      lastPlayed := some t
      lastSessionSecs := match openSince g log with
        | none => (sessions g log).head?.map sessionSecs
        | some began => some (sessionSecs (began, t))
      totalSecs := match openSince g log with
        | none => totalSecs g log
        | some began => totalSecs g log + sessionSecs (began, t) } := by
  have htime : (PlayMark.stop g t).timeOf g = some t := if_pos rfl
  rw [rowOf, List.findSome?_cons, htime, openSince_stop]
  cases hopen : openSince g log with
  | none => simp [totalSecs, sessions, hopen]
  | some began => simp [totalSecs, sessions, hopen, add_comm]

theorem rowOf_boot : rowOf g (.boot :: log)
    = (rowOf g log).map fun row => { row with sessionStart := none } := by
  have htime : PlayMark.boot.timeOf g = none := rfl
  rw [rowOf, List.findSome?_cons, htime, openSince_boot, rowOf, Option.map_map]
  rfl

/-- **A row is a function of the writes that went through.** -/
theorem rowOf_cons (m : PlayMark) (log : List PlayMark) :
    (fun g => rowOf g (m :: log)) = m.apply fun g => rowOf g log := by
  funext g
  cases m with
  | start g' t =>
      by_cases hg : g = g'
      · subst hg
        rw [rowOf_start, PlayMark.apply, PlayStats.playStart, Function.update_self]
      · rw [rowOf_cons_of_ne (by simp [PlayMark.concerns, Ne.symm hg]), PlayMark.apply,
          PlayStats.playStart, Function.update_of_ne hg]
  | stop g' t =>
      by_cases hg : g = g'
      · subst hg
        rw [rowOf_stop, PlayMark.apply, PlayStats.playStop]
        cases hlast : log.findSome? (PlayMark.timeOf g) with
        | none =>
            have hrow : rowOf g log = none := by rw [rowOf, hlast]; rfl
            simp [hrow, openSince_none hlast, totalSecs, sessions_nil_of_none hlast]
        | some last =>
            have hrow : rowOf g log = some
                { sessionStart := openSince g log, lastPlayed := some last
                  lastSessionSecs := (sessions g log).head?.map sessionSecs
                  totalSecs := totalSecs g log } := by
              rw [rowOf, hlast]
              rfl
            cases hopen : openSince g log with
            | none => simp [hrow, hopen]
            | some began => simp [hrow, hopen, sessionSecs]
      · rw [rowOf_cons_of_ne (by simp [PlayMark.concerns, Ne.symm hg]), PlayMark.apply,
          PlayStats.playStop]
        cases rowOf g' log with
        | none => simp [Function.update_of_ne hg]
        | some row =>
            cases hstart : row.sessionStart with
            | none => simp [hstart, Function.update_of_ne hg]
            | some began => simp [hstart, Function.update_of_ne hg]
  | boot => exact rowOf_boot

/-! ### No more than the time that passed -/

/-- The clock was not set back; the latest mark comes first. -/
def Clocked (log : List PlayMark) : Prop :=
  (log.filterMap PlayMark.time).Pairwise fun t t' => t' ≤ t

instance (log : List PlayMark) : Decidable (Clocked log) :=
  inferInstanceAs (Decidable ((log.filterMap PlayMark.time).Pairwise fun t t' => t' ≤ t))

/-- An open session began at the time of some mark. -/
theorem time_of_openSince {began : Timestamp} (h : openSince g log = some began) :
    began ∈ log.filterMap PlayMark.time := by
  rw [openSince] at h
  cases hfind : log.find? (PlayMark.concerns g) with
  | none =>
      rw [hfind] at h
      cases h
  | some m =>
      rw [hfind] at h
      cases m with
      | start g' t =>
          obtain rfl := Option.some.inj h
          exact List.mem_filterMap.mpr ⟨_, List.mem_of_find?_eq_some hfind, rfl⟩
      | stop | boot => cases h

theorem Clocked.tail (h : Clocked (m :: log)) : Clocked log := by
  rw [Clocked] at h ⊢
  cases m with
  | start | stop => exact (List.pairwise_cons.mp h).2
  | boot => exact h

theorem Clocked.le (h : Clocked (m :: log)) (htime : m.time = some t) :
    ∀ t' ∈ log.filterMap PlayMark.time, t' ≤ t := by
  rw [Clocked, List.filterMap_cons_some htime] at h
  exact (List.pairwise_cons.mp h).1

theorem openSince_start_of_ne (h : g' ≠ g) : openSince g (.start g' t :: log) = openSince g log :=
  openSince_cons_of_not (by simpa [PlayMark.concerns] using h)

theorem openSince_stop_of_ne (h : g' ≠ g) : openSince g (.stop g' t :: log) = openSince g log :=
  openSince_cons_of_not (by simpa [PlayMark.concerns] using h)

theorem totalSecs_stop (h : openSince g log = some t') :
    totalSecs g (.stop g t :: log) = sessionSecs (t', t) + totalSecs g log := by
  simp [totalSecs, sessions, h]

theorem totalSecs_stop_of_none (h : g' = g → openSince g log = none) :
    totalSecs g (.stop g' t :: log) = totalSecs g log := by
  by_cases hg : g' = g
  · simp [totalSecs, sessions, h hg]
  · simp [totalSecs, sessions, hg]

/-- The sessions of a game do not overlap, and lie between its first mark and an open
session. -/
theorem totalSecs_le (clocked : Clocked log) {first : Timestamp}
    (hfirst : ∀ t ∈ log.filterMap PlayMark.time, first ≤ t) :
    (∀ last, first ≤ last → (∀ t ∈ log.filterMap PlayMark.time, t ≤ last) →
      totalSecs g log * 10 ^ 9 ≤ last - first) ∧
    ∀ began, openSince g log = some began → totalSecs g log * 10 ^ 9 ≤ began - first := by
  induction log with
  | nil => exact ⟨fun last hle _ => by simp [totalSecs, sessions], nofun⟩
  | cons m log ih =>
      have hsub : ∀ t ∈ log.filterMap PlayMark.time, t ∈ (m :: log).filterMap PlayMark.time :=
        fun t ht => List.mem_filterMap.mpr ((List.mem_filterMap.mp ht).imp fun m' hm' =>
          ⟨List.mem_cons_of_mem m hm'.1, hm'.2⟩)
      obtain ⟨hclosed, hopened⟩ := ih clocked.tail fun t ht => hfirst t (hsub t ht)
      have hkeep : ∀ last, first ≤ last →
          (∀ t ∈ (m :: log).filterMap PlayMark.time, t ≤ last) →
          totalSecs g log * 10 ^ 9 ≤ last - first :=
        fun last hle hlast => hclosed last hle fun t ht => hlast t (hsub t ht)
      cases m with
      | boot => exact ⟨hkeep, fun began hbegan => by simp at hbegan⟩
      | start g' t =>
          refine ⟨hkeep, fun began hbegan => ?_⟩
          by_cases hg : g' = g
          · subst hg
            obtain rfl : t = began := by simpa using hbegan
            exact hclosed t (hfirst t (by simp [PlayMark.time])) (clocked.le rfl)
          · exact hopened began (by rwa [openSince_start_of_ne hg] at hbegan)
      | stop g' t =>
          by_cases hsession : g' = g ∧ (openSince g log).isSome
          · -- the session is the time from the open start to this mark
            obtain ⟨rfl, hsome⟩ := hsession
            obtain ⟨began, hbegan⟩ := Option.isSome_iff_exists.mp hsome
            have hmem := time_of_openSince hbegan
            have hle := clocked.le rfl began hmem
            have hlow := hfirst began (hsub began hmem)
            have hbefore := hopened began hbegan
            have hdiv : sessionSecs (began, t) * 10 ^ 9 ≤ t - began := Nat.div_mul_le_self _ _
            refine ⟨fun last _ hlast => ?_, fun _ hnone => by simp at hnone⟩
            have hmine := hlast t (by simp [PlayMark.time])
            rw [totalSecs_stop hbegan, add_mul]
            calc sessionSecs (began, t) * 10 ^ 9 + totalSecs g' log * 10 ^ 9
                ≤ (t - began) + (began - first) := Nat.add_le_add hdiv hbefore
              _ = t - first := Nat.sub_add_sub_cancel hle hlow
              _ ≤ last - first := Nat.sub_le_sub_right hmine first
          · have hsame : totalSecs g (.stop g' t :: log) = totalSecs g log :=
              totalSecs_stop_of_none fun hg => by simpa [hg] using hsession
            rw [hsame]
            refine ⟨hkeep, fun began hbegan => ?_⟩
            by_cases hg : g' = g
            · subst hg
              simp at hbegan
            · exact hopened began (by rwa [openSince_stop_of_ne hg] at hbegan)

end Marks

/-! ## The daemon -/

/-- What a listing has read. -/
structure PlayListing where
  running : Finset GameId
  stats : PlayStats
  /-- The table could be read. -/
  readOk : Bool

/-- The table of play times and what the engine shows of it. Events are handled one at a
time, listings may come in between. -/
structure PlayWorld where
  stats : PlayStats
  running : Finset GameId
  /-- `on_event` has written to the table, and is about to show the game as running or not. -/
  handling : Option DetectionEvent
  /-- The listings that hold the lock of the running games, with what they read. -/
  readers : List (ℕ × Finset GameId)
  /-- The listings that have been answered, the latest first. -/
  shown : List PlayListing

/-- What happens next: an event of the watcher, a listing, or a start of the daemon. Each
part that another may come before is an event of its own. -/
inductive PlayEvent
  /-- `on_event` up to its write, which may fail. -/
  | record (event : DetectionEvent) (ok : Bool)
  /-- The rest of `on_event`. -/
  | flag
  /-- A listing takes the lock. -/
  | lock (i : ℕ)
  /-- It reads the table, which may fail, and answers. -/
  | list (i : ℕ) (ok : Bool)
  /-- The daemon ends, and starts again. -/
  | restart (ok : Bool)

/-- The write that handling an event makes. -/
def DetectionEvent.mark : DetectionEvent → Option PlayMark
  | .gameStarted g _ t => some (.start g t)
  | .gameStopped g t => some (.stop g t)
  | _ => none

/-- The write of an event, if it went through. -/
def PlayEvent.mark : PlayEvent → Option PlayMark
  | .record event true => event.mark
  | .restart true => some .boot
  | _ => none

/-- The writes of a run that went through, the latest first. -/
def marksOf (trace : List PlayEvent) : List PlayMark := (trace.filterMap PlayEvent.mark).reverse

/-- Every write goes through. -/
def PlayEvent.WriteOk : PlayEvent → Prop
  | .record _ ok | .restart ok => ok = true
  | _ => True

instance : DecidablePred PlayEvent.WriteOk
  | .record _ ok | .restart ok => inferInstanceAs (Decidable (ok = true))
  | .flag | .lock _ | .list _ _ => instDecidableTrue

/-- What handling an event shows as running. -/
def DetectionEvent.flag (running : Finset GameId) : DetectionEvent → Finset GameId
  | .gameStarted g _ _ => insert g running
  | .gameStopped g _ => running.erase g
  | _ => running

namespace PlayWorld

/-- A write to the table. -/
def write (w : PlayWorld) (ok : Bool) (mark : Option PlayMark) : PlayWorld :=
  match ok, mark with
  | true, some m => { w with stats := m.apply w.stats }
  | _, _ => w

/-- The event loop handles one event after the other; a lock is taken for writing when no
listing holds it. -/
def Enabled (w : PlayWorld) : PlayEvent → Prop
  | .record event _ => w.handling = none ∧ event.mark.isSome
  | .flag => w.handling.isSome ∧ w.readers = []
  | .lock i => i ∉ w.readers.map Prod.fst
  | .list i _ => i ∈ w.readers.map Prod.fst
  | .restart _ => True

instance (w : PlayWorld) : DecidablePred w.Enabled
  | .record event _ => inferInstanceAs (Decidable (w.handling = none ∧ event.mark.isSome))
  | .flag => inferInstanceAs (Decidable (w.handling.isSome ∧ w.readers = []))
  | .lock i => inferInstanceAs (Decidable (i ∉ w.readers.map Prod.fst))
  | .list i _ => inferInstanceAs (Decidable (i ∈ w.readers.map Prod.fst))
  | .restart _ => instDecidableTrue

/-- The state after an event. A write that fails leaves the table as it was, and what is
shown as running is changed all the same. -/
def next (w : PlayWorld) : PlayEvent → PlayWorld
  | .record event ok => { w.write ok event.mark with handling := some event }
  | .flag =>
      match w.handling with
      | some event => { w with running := event.flag w.running, handling := none }
      | none => w
  | .lock i => { w with readers := (i, w.running) :: w.readers }
  | .list i ok =>
      match w.readers.find? fun reader => reader.1 = i with
      | some reader =>
          { w with
            readers := w.readers.erase reader
            shown := ⟨reader.2, if ok then w.stats else fun _ => none, ok⟩ :: w.shown }
      | none => w
  | .restart ok =>
      { w.write ok (some .boot) with running := ∅, handling := none, readers := [] }

/-- Nothing has been played yet. -/
structure New (w : PlayWorld) : Prop where
  stats : w.stats = fun _ => none
  running : w.running = ∅
  handling : w.handling = none
  readers : w.readers = []
  shown : w.shown = []

end PlayWorld

/-- One event after the other; a listing may run at any point of the handling of another. -/
def PlayStep : PlayWorld → PlayEvent → PlayWorld → Prop :=
  guarded PlayWorld.Enabled PlayWorld.next

section Daemon

variable {w w' w₀ : PlayWorld} {ev : PlayEvent} {trace : List PlayEvent}

/-- Where no write fails, both halves of `on_event` are `PlayEngine.onEvent`. -/
theorem onEvent_eq (event : DetectionEvent) (hmark : event.mark.isSome) :
    let w' := (w.next (.record event true)).next .flag
    (⟨w'.stats, w'.running⟩ : PlayEngine)
      = ((⟨w.stats, w.running⟩ : PlayEngine).onEvent event).1 := by
  cases event with
  | gameStarted | gameStopped => rfl
  | _ => cases hmark

/-! ### Every run -/

theorem marksOf_append (trace : List PlayEvent) (ev : PlayEvent) :
    marksOf (trace ++ [ev]) = ev.mark.toList ++ marksOf trace := by
  rw [marksOf, List.filterMap_append, List.reverse_append, marksOf]
  cases h : ev.mark with
  | none => simp [h]
  | some m => simp [h]

/-- A step changes the table by its write. -/
theorem stats_next (w : PlayWorld) (ev : PlayEvent) :
    (w.next ev).stats = ev.mark.elim w.stats fun m => m.apply w.stats := by
  cases ev with
  | record event ok =>
      cases ok with
      | false => rfl
      | true => cases event <;> rfl
  | flag =>
      rw [PlayWorld.next]
      cases w.handling <;> rfl
  | lock => rfl
  | list i ok =>
      rw [PlayWorld.next]
      cases w.readers.find? fun reader => reader.1 = i <;> rfl
  | restart ok => cases ok <;> rfl

/-- The table is what the marks of the run add up to. -/
theorem stats_of_run (run : Run PlayStep w₀ trace w) (new : w₀.New) :
    w.stats = fun g => rowOf g (marksOf trace) := by
  induction run with
  | nil =>
      rw [new.stats]
      rfl
  | @snoc trace t u ev run step ih =>
      rw [step.2, stats_next, ih, marksOf_append]
      cases ev.mark with
      | none => rfl
      | some m => exact (rowOf_cons m _).symm

/-- The total of a game, as a listing shows it. -/
def PlayStats.total (t : PlayStats) (g : GameId) : ℕ := ((t g).map PlayRow.totalSecs).getD 0

theorem PlayStats.total_rowOf (log : List PlayMark) (g : GameId) :
    PlayStats.total (fun g => rowOf g log) g = totalSecs g log := by
  rw [PlayStats.total, rowOf]
  cases h : log.findSome? (PlayMark.timeOf g) with
  | none => simp [totalSecs, sessions_nil_of_none h]
  | some t => rfl

theorem PlayStats.total_update_of_ne {g g' : GameId} (h : g ≠ g') (t : PlayStats)
    (row : Option PlayRow) : PlayStats.total (Function.update t g' row) g = t.total g := by
  rw [PlayStats.total, Function.update_of_ne h, PlayStats.total]

theorem PlayStats.total_update_self (g : GameId) (t : PlayStats) (row : PlayRow) :
    PlayStats.total (Function.update t g (some row)) g = row.totalSecs := by
  rw [PlayStats.total, Function.update_self]
  rfl

/-- No write takes from a total. -/
theorem PlayStats.total_le_apply (t : PlayStats) (m : PlayMark) (g : GameId) :
    t.total g ≤ (m.apply t).total g := by
  cases m with
  | start g' time =>
      rw [PlayMark.apply, playStart]
      by_cases hg : g = g'
      · subst hg
        rw [total_update_self, total]
        cases t g <;> rfl
      · rw [total_update_of_ne hg]
  | stop g' time =>
      rw [PlayMark.apply, playStop]
      by_cases hg : g = g'
      · subst hg
        rw [total]
        cases hrow : t g with
        | none => exact Nat.zero_le _
        | some row =>
            cases hstart : row.sessionStart with
            | none => simp [hstart, total_update_self]
            | some began => simp [hstart, total_update_self]
      · cases t g' with
        | none => simp [total_update_of_ne hg]
        | some row =>
            cases hstart : row.sessionStart with
            | none => simp [hstart, total_update_of_ne hg]
            | some began => simp [hstart, total_update_of_ne hg]
  | boot =>
      show ((t g).map PlayRow.totalSecs).getD 0 ≤ (((t g).map _).map PlayRow.totalSecs).getD 0
      cases t g <;> exact le_rfl

theorem total_le_next (w : PlayWorld) (ev : PlayEvent) (g : GameId) :
    w.stats.total g ≤ (w.next ev).stats.total g := by
  rw [stats_next]
  cases ev.mark with
  | none => exact le_rfl
  | some m => exact PlayStats.total_le_apply _ m g

/-- What has been shown is no more than what the table counts by now. -/
structure PlayWorld.Counted (w : PlayWorld) : Prop where
  now : ∀ l ∈ w.shown, l.readOk = true → ∀ g, l.stats.total g ≤ w.stats.total g
  order : w.shown.Pairwise fun later earlier => later.readOk = true → earlier.readOk = true →
    ∀ g, earlier.stats.total g ≤ later.stats.total g

/-- Only the answer of a listing adds to what has been shown. -/
theorem shown_next (w : PlayWorld) (ev : PlayEvent) : (w.next ev).shown = w.shown ∨
    ∃ i ok reader, ev = .list i ok ∧ reader ∈ w.readers ∧ (w.next ev).stats = w.stats ∧
      (w.next ev).shown = ⟨reader.2, if ok then w.stats else fun _ => none, ok⟩ :: w.shown := by
  cases ev with
  | record event ok =>
      left
      cases ok with
      | false => rfl
      | true => cases event <;> rfl
  | flag =>
      left
      rw [PlayWorld.next]
      cases w.handling <;> rfl
  | lock => exact .inl rfl
  | restart ok => cases ok <;> exact .inl rfl
  | list i ok =>
      cases hfind : w.readers.find? fun reader => reader.1 = i with
      | none => exact .inl (by rw [PlayWorld.next, hfind])
      | some reader =>
          refine .inr ⟨i, ok, reader, rfl, List.mem_of_find?_eq_some hfind, ?_, ?_⟩
          · rw [PlayWorld.next, hfind]
          · rw [PlayWorld.next, hfind]

/-- Each write adds its mark to the log, and a failed one adds none. -/
theorem PlayWorld.Counted.step (h : w.Counted) (step : PlayStep w ev w') : w'.Counted := by
  obtain ⟨-, rfl⟩ := step
  rcases shown_next w ev with hsame | ⟨i, ok, reader, -, -, hstats, hshown⟩
  · refine ⟨fun l hl hok g => ?_, hsame ▸ h.order⟩
    exact (h.now l (hsame ▸ hl) hok g).trans (total_le_next w ev g)
  · have hnew : ∀ g,
        PlayStats.total (if ok then w.stats else fun _ => none) g ≤ w.stats.total g := by
      intro g
      cases ok with
      | false => exact Nat.zero_le _
      | true => exact le_rfl
    refine ⟨fun l hl hok g => ?_, ?_⟩
    · rw [hshown] at hl
      rw [hstats]
      rcases List.mem_cons.mp hl with rfl | hl
      · exact hnew g
      · exact h.now l hl hok g
    · rw [hshown]
      refine List.pairwise_cons.mpr ⟨fun earlier hearlier hok hok' g => ?_, h.order⟩
      obtain rfl : ok = true := hok
      exact h.now earlier hearlier hok' g

/-- **What the play time of a game accounts for.**  Over all lives of the daemon, with any write
failing: a row counts the sessions that were seen to end, each from the start right before it that
no start of the daemon has closed; if the clock is not set back, they add up to no more than the
time that passed; and a later listing never shows less. -/
theorem play_time_accounted (run : Run PlayStep w₀ trace w) (new : w₀.New) :
    (w.stats = fun g => rowOf g (marksOf trace)) ∧
    (∀ g first last, Clocked (marksOf trace) → first ≤ last →
      (∀ t ∈ (marksOf trace).filterMap PlayMark.time, first ≤ t ∧ t ≤ last) →
      w.stats.total g * 10 ^ 9 ≤ last - first) ∧
    w.shown.Pairwise fun later earlier => later.readOk = true → earlier.readOk = true →
      ∀ g, earlier.stats.total g ≤ later.stats.total g := by
  have hstats := stats_of_run run new
  refine ⟨hstats, fun g first last clocked hle hwithin => ?_, ?_⟩
  · rw [hstats, PlayStats.total_rowOf]
    exact (totalSecs_le clocked fun t ht => (hwithin t ht).1).1 last hle
      fun t ht => (hwithin t ht).2
  · refine (run.invariant (I := PlayWorld.Counted) (fun _ _ _ h step => h.step step) ?_).order
    refine ⟨fun l hl => ?_, ?_⟩
    · rw [new.shown] at hl
      cases hl
    · rw [new.shown]
      exact List.Pairwise.nil

/-! ### What is shown as running -/

/-- The games that are shown as running once the event at hand is handled. -/
def PlayWorld.settled (w : PlayWorld) : Finset GameId :=
  w.handling.elim w.running fun event => event.flag w.running

/-- When a game was last played is known. -/
def PlayStats.Played (t : PlayStats) (g : GameId) : Prop :=
  ((t g).bind PlayRow.lastPlayed).isSome

/-- The table and what is shown agree, as long as every write goes through. -/
structure PlayWorld.Agrees (w : PlayWorld) : Prop where
  settled : ∀ g, w.stats.isOpen g = true ↔ g ∈ w.settled
  opened : ∀ g, w.stats.isOpen g = true → w.stats.Played g
  running : ∀ g ∈ w.running, w.stats.Played g
  readers : ∀ reader ∈ w.readers, ∀ g ∈ reader.2, w.stats.Played g
  shown : ∀ l ∈ w.shown, l.readOk = true → ∀ g ∈ l.running, l.stats.Played g

/-- What is known about a game stays known. -/
theorem PlayStats.Played.apply {t : PlayStats} {g : GameId} (h : t.Played g) (m : PlayMark) :
    (m.apply t).Played g := by
  obtain ⟨last, hlast⟩ := Option.isSome_iff_exists.mp h
  obtain ⟨row, hrow, hlast⟩ := Option.bind_eq_some_iff.mp hlast
  cases m with
  | start g' time =>
      rw [PlayMark.apply, Played, playStart]
      by_cases hg : g = g'
      · subst hg
        simp [hrow]
      · simp [Function.update_of_ne hg, hrow, hlast]
  | stop g' time =>
      rw [PlayMark.apply, Played, playStop]
      by_cases hg : g = g'
      · subst hg
        rw [hrow]
        cases hstart : row.sessionStart <;> simp [hstart]
      · cases t g' with
        | none => simp [Function.update_of_ne hg, hrow, hlast]
        | some row' =>
            cases hstart : row'.sessionStart <;>
              simp [hstart, Function.update_of_ne hg, hrow, hlast]
  | boot =>
      show (((t g).map _).bind PlayRow.lastPlayed).isSome
      rw [hrow]
      simp [hlast]

theorem played_start (t : PlayStats) (g : GameId) (time : Timestamp) :
    (t.playStart g time).Played g := by
  rw [PlayStats.Played, PlayStats.playStart, Function.update_self]
  cases t g <;> rfl

/-- What is open is played, after a write as before. -/
theorem opened_apply {t : PlayStats} (h : ∀ g, t.isOpen g = true → t.Played g) (m : PlayMark)
    {g : GameId} (hopen : (m.apply t).isOpen g = true) : (m.apply t).Played g := by
  cases m with
  | start g' time =>
      by_cases hg : g' = g
      · subst hg
        exact played_start t g' time
      · rw [PlayMark.apply, PlayStats.isOpen_playStart, if_neg hg] at hopen
        exact (h g hopen).apply (.start g' time)
  | stop g' time =>
      by_cases hg : g' = g
      · rw [PlayMark.apply, PlayStats.isOpen_playStop, if_pos hg] at hopen
        cases hopen
      · rw [PlayMark.apply, PlayStats.isOpen_playStop, if_neg hg] at hopen
        exact (h g hopen).apply (.stop g' time)
  | boot =>
      rw [PlayMark.apply, PlayStats.isOpen_closeOrphanedSessions] at hopen
      cases hopen

/-- A write that goes through comes before the game is shown otherwise. -/
theorem PlayWorld.Agrees.record (h : w.Agrees) (hidle : w.handling = none)
    {event : DetectionEvent} (hmark : event.mark.isSome) :
    (w.next (.record event true)).Agrees := by
  obtain ⟨m, hm⟩ := Option.isSome_iff_exists.mp hmark
  have hnext : w.next (.record event true)
      = { w with stats := m.apply w.stats, handling := some event } := by
    show { w.write true event.mark with handling := some event } = _
    rw [hm]
    rfl
  have hsettled : ∀ g, w.stats.isOpen g = true ↔ g ∈ w.running := by
    intro g
    rw [h.settled g, PlayWorld.settled, hidle]
    rfl
  rw [hnext]
  refine ⟨fun g => ?_, fun g hopen => opened_apply h.opened m hopen,
    fun g hg => (h.running g hg).apply m,
    fun reader hreader g hg => (h.readers reader hreader g hg).apply m, h.shown⟩
  show (m.apply w.stats).isOpen g = true ↔ g ∈ event.flag w.running
  cases event with
  | gameStarted g' pid time =>
      obtain rfl := Option.some.inj hm
      rw [PlayMark.apply, PlayStats.isOpen_playStart, DetectionEvent.flag, Finset.mem_insert]
      by_cases hg : g' = g
      · simp [hg]
      · rw [if_neg hg, hsettled g]
        simp [Ne.symm hg]
  | gameStopped g' time =>
      obtain rfl := Option.some.inj hm
      rw [PlayMark.apply, PlayStats.isOpen_playStop, DetectionEvent.flag, Finset.mem_erase]
      by_cases hg : g' = g
      · simp [hg]
      · rw [if_neg hg, hsettled g]
        simp [Ne.symm hg]
  | _ => cases hm

/-- Then the game is shown as the table has it. -/
theorem PlayWorld.Agrees.flag (h : w.Agrees) {event : DetectionEvent}
    (hhandling : w.handling = some event) : (w.next .flag).Agrees := by
  have hnext : w.next .flag = { w with running := event.flag w.running, handling := none } := by
    rw [next, hhandling]
  have hsettled : w.settled = event.flag w.running := by
    rw [PlayWorld.settled, hhandling]
    rfl
  rw [hnext]
  refine ⟨fun g => ?_, h.opened, fun g hg => h.opened g ?_, h.readers, h.shown⟩
  · show w.stats.isOpen g = true ↔ g ∈ event.flag w.running
    rw [← hsettled]
    exact h.settled g
  · rw [h.settled g, hsettled]
    exact hg

/-- A listing shows what it has read under the lock. -/
theorem PlayWorld.Agrees.list (h : w.Agrees) (i : ℕ) (ok : Bool) :
    (w.next (.list i ok)).Agrees := by
  cases hfind : w.readers.find? fun reader => reader.1 = i with
  | none =>
      rw [next, hfind]
      exact h
  | some reader =>
      have hnext : w.next (.list i ok) =
          { w with
            readers := w.readers.erase reader
            shown := ⟨reader.2, if ok then w.stats else fun _ => none, ok⟩ :: w.shown } := by
        rw [next, hfind]
      rw [hnext]
      refine ⟨h.settled, h.opened, h.running,
        fun r hr => h.readers r (List.mem_of_mem_erase hr), fun l hl hok g hg => ?_⟩
      rcases List.mem_cons.mp hl with rfl | hl
      · obtain rfl : ok = true := hok
        exact h.readers reader (List.mem_of_find?_eq_some hfind) g hg
      · exact h.shown l hl hok g hg

/-- The table and what is shown agree after every step. -/
theorem PlayWorld.Agrees.step (h : w.Agrees) (step : PlayStep w ev w') (hok : ev.WriteOk) :
    w'.Agrees := by
  obtain ⟨henabled, rfl⟩ := step
  cases ev with
  | record event ok =>
      obtain rfl : ok = true := hok
      exact h.record henabled.1 henabled.2
  | flag =>
      obtain ⟨event, hevent⟩ := Option.isSome_iff_exists.mp henabled.1
      exact h.flag hevent
  | lock i =>
      refine ⟨h.settled, h.opened, h.running, fun reader hreader => ?_, h.shown⟩
      rcases List.mem_cons.mp hreader with rfl | hreader
      · exact h.running
      · exact h.readers reader hreader
  | list i ok => exact h.list i ok
  | restart ok =>
      obtain rfl : ok = true := hok
      refine ⟨fun g => ?_, fun g hopen => opened_apply h.opened .boot hopen, nofun, nofun, h.shown⟩
      rw [show (w.next (.restart true)).stats = w.stats.closeOrphanedSessions from rfl,
        PlayStats.isOpen_closeOrphanedSessions]
      exact iff_of_false Bool.false_ne_true (Finset.notMem_empty g)

section Example

/-- Game 7 is played for 90 seconds, and again when the daemon dies. -/
def playEvents : List PlayEvent :=
  [.record (.gameStarted 7 4242 0) true, .flag, .lock 0, .list 0 true,
    .record (.gameStopped 7 (90 * 10 ^ 9)) true, .flag,
    .record (.gameStarted 7 4243 (100 * 10 ^ 9)) true, .restart true,
    .record (.gameStopped 7 (200 * 10 ^ 9)) true]

/-- No game was played yet. -/
def unplayed : PlayWorld where
  stats := fun _ => none
  running := ∅
  handling := none
  readers := []
  shown := []

theorem unplayed_new : unplayed.New := ⟨rfl, rfl, rfl, rfl, rfl⟩

theorem playEvents_run :
    Run PlayStep unplayed playEvents (playEvents.foldl PlayWorld.next unplayed) :=
  Run.of_enabled (by decide +kernel)

/-- The session that was open when the daemon died is not counted. -/
theorem playEvents_accounted :
    (playEvents.foldl PlayWorld.next unplayed).stats.total 7 * 10 ^ 9 ≤ 200 * 10 ^ 9 ∧
    (playEvents.foldl PlayWorld.next unplayed).stats 7 = some
      { sessionStart := none, lastPlayed := some (200 * 10 ^ 9)
        lastSessionSecs := some 90, totalSecs := 90 } := by
  obtain ⟨hrows, hbound, -⟩ := play_time_accounted playEvents_run unplayed_new
  refine ⟨hbound 7 0 (200 * 10 ^ 9) (by decide +kernel) (by decide) (by decide +kernel), ?_⟩
  rw [hrows]
  decide +kernel

end Example

end Daemon

end Savr
