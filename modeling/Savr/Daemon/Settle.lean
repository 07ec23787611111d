import Savr.Daemon.Watcher

/-!
# When a stop fires

The settle timer of `run_watcher`, over whole runs: at which polls `GameStopped` is sent.

## Main results

* `GameWatch.due_of_gone` — while a game is gone, the deadline of its stop is the settle time
  behind the first scan that missed it, until the stop has fired.
* `Watcher.stop_fires_iff` — a stop fires exactly once for each absence, and not before it has
  settled.
-/

namespace Savr

namespace GameWatch

variable {settle : Instant} {v : GameWatch} {s : Sight} {sights gone : List Sight}

/-- The poll sends `GameStopped` once, and nothing else about the game. -/
def Stops (settle : Instant) (v : GameWatch) (s : Sight) : Prop :=
  (v.tick settle s).2 = [.stopped]

instance : Decidable (v.Stops settle s) := inferInstanceAs (Decidable (_ = _))

/-- One poll sends at most one edge of a game, so a stop that it sends is all that it sends. -/
theorem stops_of_mem (h : Edge.stopped ∈ (v.tick settle s).2) : v.Stops settle s := by
  rw [tick] at h
  rw [Stops, tick]
  cases hseen : s.seen with
  | true => cases hpresent : v.present <;> simp [hseen, hpresent] at h
  | false =>
      cases hdue : v.due settle s with
      | none => simp [hseen, hdue] at h
      | some d =>
          by_cases hle : d ≤ s.now
          · simp [hle]
          · simp [hseen, hdue, hle] at h

/-- A poll stops the game when it does not see it and its deadline has come. -/
theorem stops_iff :
    v.Stops settle s ↔ s.seen = false ∧ ∃ d, v.due settle s = some d ∧ d ≤ s.now := by
  rw [Stops, tick]
  cases hseen : s.seen with
  | true =>
      cases v.present <;> simp
  | false =>
      cases hdue : v.due settle s with
      | none => simp
      | some d => by_cases hle : d ≤ s.now <;> simp [hle]

theorem run_concat (settle : Instant) (v : GameWatch) (sights : List Sight) (s : Sight) :
    (v.run settle (sights ++ [s])).1 = ((v.run settle sights).1.tick settle s).1 := by
  rw [run_eq_foldl, run_eq_foldl, List.foldl_append]
  rfl

/-- A poll that misses the game keeps what is due, unless the stop fires. -/
theorem due_tick (hseen : s.seen = false) (next : Sight) :
    ((v.tick settle s).1.due settle next) = if v.Stops settle s then none else v.due settle s := by
  have hstops : v.Stops settle s ↔ s.seen = false ∧ ∃ d, v.due settle s = some d ∧ d ≤ s.now :=
    stops_iff
  rw [tick, if_neg (by simp [hseen])]
  cases hdue : v.due settle s with
  | none => simp [due]
  | some d =>
      by_cases hle : d ≤ s.now
      · rw [if_pos (hstops.mpr ⟨hseen, d, hdue, hle⟩)]
        simp [due, hle]
      · have hnot : ¬ v.Stops settle s := by
          rw [hstops]
          rintro ⟨-, d', hd', hle'⟩
          rw [hdue] at hd'
          exact hle (Option.some.inj hd' ▸ hle')
        rw [if_neg hnot]
        simp [due, hle]

/-- No poll of these has sent a stop. -/
def Silent (settle : Instant) (v : GameWatch) (gone : List Sight) : Prop :=
  ∀ before q later, gone = before ++ q :: later → ¬ (v.run settle before).1.Stops settle q

/-- One more poll sends nothing. -/
theorem silent_concat_iff : v.Silent settle (gone ++ [s]) ↔
    v.Silent settle gone ∧ ¬ (v.run settle gone).1.Stops settle s := by
  constructor
  · intro h
    refine ⟨fun before q later hsplit => ?_, h gone s [] rfl⟩
    exact h before q (later ++ [s]) (by rw [hsplit]; simp)
  · rintro ⟨hgone, hs⟩ before q later hsplit
    rcases List.eq_nil_or_concat' later with rfl | ⟨later, last, rfl⟩
    · obtain ⟨rfl, heq⟩ := List.append_inj' hsplit rfl
      obtain ⟨rfl, -⟩ := List.cons.inj heq
      exact hs
    · refine hgone before q later ?_
      rw [← List.cons_append, ← List.append_assoc] at hsplit
      exact (List.append_inj' hsplit rfl).1

open Classical in
/-- While a game that was seen is gone, its stop is due the settle time after the first scan that
missed it, until it has fired. -/
theorem due_of_gone (hseen : ∀ q ∈ gone, q.seen = false) (s : Sight) :
    ((run settle ⟨true, none⟩ gone).1.due settle s) =
      if Silent settle ⟨true, none⟩ gone then some ((gone.head?.getD s).armedAt + settle)
      else none := by
  induction gone using List.reverseRecOn generalizing s with
  | nil =>
      rw [if_pos]
      · rfl
      · intro before q later hsplit
        simp at hsplit
  | append_singleton gone q ih =>
      have hgone : ∀ q ∈ gone, q.seen = false := fun q hq => hseen q (List.mem_append_left _ hq)
      have hfirst : (gone ++ [q]).head?.getD s = gone.head?.getD q := by
        cases gone <;> rfl
      rw [run_concat, due_tick (hseen q (by simp)), ih hgone q, hfirst]
      by_cases hsilent : Silent settle ⟨true, none⟩ gone
      · by_cases hstops : (run settle ⟨true, none⟩ gone).1.Stops settle q
        · rw [if_pos hstops, if_neg fun h => (silent_concat_iff.mp h).2 hstops]
        · rw [if_neg hstops, if_pos hsilent, if_pos (silent_concat_iff.mpr ⟨hsilent, hstops⟩)]
      · rw [if_neg hsilent, if_neg fun h => hsilent (silent_concat_iff.mp h).1, ite_self]

/-- A game that no scan saw has nothing due. -/
theorem due_of_unseen (hseen : ∀ q ∈ gone, q.seen = false) :
    (run settle ⟨false, none⟩ gone).1 = ⟨false, none⟩ := by
  induction gone using List.reverseRecOn with
  | nil => rfl
  | append_singleton gone q ih =>
      rw [run_concat, ih fun q hq => hseen q (List.mem_append_left _ hq), tick,
        if_neg (by simp [hseen q (by simp)])]
      rfl

/-- The state after a scan that saw the game does not depend on what was before. -/
theorem run_of_seen (hseen : s.seen = true) :
    (v.run settle (sights ++ s :: gone)).1 = (run settle ⟨true, none⟩ gone).1 := by
  rw [run_eq_foldl, List.foldl_append, List.foldl_cons, ← run_eq_foldl, ← run_eq_foldl, tick,
    if_pos hseen]

end GameWatch

namespace Watcher

variable {settle : Instant} {g : GameId} {before : List Poll} {p : Poll}

/-- What one poll sends about a game after these polls: every `GameStarted` and `GameStopped` of
it, in their order and as often as they are sent. -/
def sentAt (settle : Instant) (g : GameId) (before : List Poll) (p : Poll) : List Edge :=
  edgesOf g ((run settle start before).1.tick settle p).2

/-- After these polls, this one sends `GameStopped` for the game once, and nothing else about
it. -/
def StopsAt (settle : Instant) (g : GameId) (before : List Poll) (p : Poll) : Prop :=
  sentAt settle g before p = [.stopped]

theorem sentAt_eq : sentAt settle g before p =
    ((GameWatch.run settle (start.of g) (before.map (·.sight g))).1.tick settle
      (p.sight g)).2 := by
  rw [sentAt, (tick_of ..).2, (run_of ..).1]

/-- A poll sends a stop exactly when the machine of the game does. -/
theorem stopsAt_iff : StopsAt settle g before p ↔
    (GameWatch.run settle (start.of g) (before.map (·.sight g))).1.Stops settle (p.sight g) := by
  rw [StopsAt, sentAt_eq]
  rfl

/-- No poll sends a stop twice, or beside a start. -/
theorem stopped_mem_sentAt_iff :
    Edge.stopped ∈ sentAt settle g before p ↔ StopsAt settle g before p := by
  constructor
  · intro h
    rw [sentAt_eq] at h
    exact stopsAt_iff.mpr (GameWatch.stops_of_mem h)
  · intro h
    rw [StopsAt] at h
    rw [h]
    exact List.mem_singleton_self _

/-- The polls up to the last one that satisfies something. -/
theorem exists_last_poll (P : Poll → Prop) [DecidablePred P] (polls : List Poll) :
    (∀ q ∈ polls, ¬ P q) ∨
      ∃ early last gone, polls = early ++ last :: gone ∧ P last ∧ ∀ q ∈ gone, ¬ P q := by
  induction polls using List.reverseRecOn with
  | nil => exact .inl fun _ hq => absurd hq List.not_mem_nil
  | append_singleton polls p ih =>
      by_cases hp : P p
      · exact .inr ⟨polls, p, [], rfl, hp, fun _ hq => absurd hq List.not_mem_nil⟩
      · rcases ih with hnone | ⟨early, last, gone, rfl, hlast, hgone⟩
        · refine .inl fun q hq => ?_
          rcases List.mem_append.mp hq with hq | hq
          · exact hnone q hq
          · rwa [List.mem_singleton.mp hq]
        · refine .inr ⟨early, last, gone ++ [p], by simp, hlast, fun q hq => ?_⟩
          rcases List.mem_append.mp hq with hq | hq
          · exact hgone q hq
          · rwa [List.mem_singleton.mp hq]

/-- A game that is gone is silent as long as no poll sends its stop. -/
theorem silent_iff (early : List Poll) {gone : List Poll} {seen : Poll}
    (hseen : g ∈ seen.nowRunning) :
    GameWatch.Silent settle ⟨true, none⟩ (gone.map (·.sight g)) ↔
      ∀ absent q later, gone = absent ++ q :: later →
        ¬ StopsAt settle g (early ++ seen :: absent) q := by
  have hsight : (seen.sight g).seen = true := decide_eq_true hseen
  have hstops : ∀ absent q, StopsAt settle g (early ++ seen :: absent) q ↔
      (GameWatch.run settle ⟨true, none⟩ (absent.map (·.sight g))).1.Stops settle (q.sight g) := by
    intro absent q
    rw [stopsAt_iff, List.map_append, List.map_cons, GameWatch.run_of_seen hsight]
  constructor
  · rintro hsilent absent q later rfl hat
    exact hsilent (absent.map (·.sight g)) (q.sight g) (later.map (·.sight g)) (by simp)
      ((hstops absent q).mp hat)
  · intro hnever sights s more hsplit
    obtain ⟨absent, rest, rfl, rfl, hrest⟩ := List.map_eq_append_iff.mp hsplit
    obtain ⟨q, later, rfl, rfl, rfl⟩ := List.map_eq_cons_iff.mp hrest
    exact fun hat => hnever absent q later rfl ((hstops absent q).mpr hat)

/-- With the last scan that saw the game fixed, a poll stops it exactly if the scans since then
and this one missed it, the first of them has settled, and none of them stopped it. -/
theorem stopsAt_of_seen (early : List Poll) {seen : Poll} {gone : List Poll}
    (hseen : g ∈ seen.nowRunning) (hgone : ∀ q ∈ gone, g ∉ q.nowRunning) :
    StopsAt settle g (early ++ seen :: gone) p ↔ g ∉ p.nowRunning ∧
      ((gone ++ [p]).headD p).armedAt g + settle ≤ p.now ∧
      ∀ absent q later, gone = absent ++ q :: later →
        ¬ StopsAt settle g (early ++ seen :: absent) q := by
  have hunseen : ∀ s ∈ gone.map (·.sight g), s.seen = false := by
    intro s hs
    obtain ⟨q, hq, rfl⟩ := List.mem_map.mp hs
    exact decide_eq_false (hgone q hq)
  have hfirst : (((gone.map (·.sight g)).head?.getD (p.sight g)).armedAt)
      = ((gone ++ [p]).headD p).armedAt g := by
    cases gone <;> rfl
  rw [stopsAt_iff, List.map_append, List.map_cons,
    GameWatch.run_of_seen (s := seen.sight g) (decide_eq_true hseen), GameWatch.stops_iff,
    GameWatch.due_of_gone hunseen, hfirst, ← silent_iff early hseen]
  have habsent : (p.sight g).seen = false ↔ g ∉ p.nowRunning := decide_eq_false_iff_not
  have hnow : (p.sight g).now = p.now := rfl
  rw [habsent, hnow]
  by_cases hsilent : GameWatch.Silent settle ⟨true, none⟩ (gone.map (·.sight g))
  · rw [if_pos hsilent]
    simp [hsilent]
  · rw [if_neg hsilent]
    simp [hsilent]

/-- A game that no scan has seen is not stopped. -/
theorem not_stopsAt_of_unseen (h : ∀ q ∈ before, g ∉ q.nowRunning) :
    ¬ StopsAt settle g before p := by
  intro hstops
  have hunseen : ∀ s ∈ before.map (·.sight g), s.seen = false := by
    intro s hs
    obtain ⟨q, hq, rfl⟩ := List.mem_map.mp hs
    exact decide_eq_false (h q hq)
  have hstart : start.of g = ⟨false, none⟩ := rfl
  rw [stopsAt_iff, hstart, GameWatch.due_of_unseen hunseen, GameWatch.stops_iff] at hstops
  obtain ⟨-, d, hd, -⟩ := hstops
  cases hd

/-- **When a stop fires.**  A poll sends `GameStopped` for a game exactly when an earlier scan saw
it, every scan since its last presence missed it, the settle time has passed since the first of
them, and none of them has sent a stop already.  It then sends one stop and nothing else about the
game, and whichever poll sends a stop at all sends it so. -/
theorem stop_fires_iff (settle : Instant) (g : GameId) (before : List Poll) (p : Poll) :
    (sentAt settle g before p = [.stopped] ↔
      ∃ early seen gone, before = early ++ seen :: gone ∧
        g ∈ seen.nowRunning ∧ (∀ q ∈ gone ++ [p], g ∉ q.nowRunning) ∧
        ((gone ++ [p]).headD p).armedAt g + settle ≤ p.now ∧
        ∀ absent q later, gone = absent ++ q :: later →
          .stopped ∉ sentAt settle g (early ++ seen :: absent) q) ∧
    (.stopped ∈ sentAt settle g before p → sentAt settle g before p = [.stopped]) := by
  simp only [stopped_mem_sentAt_iff]
  refine ⟨?_, id⟩
  constructor
  · intro hstops
    rcases exists_last_poll (fun q => g ∈ q.nowRunning) before with hnone |
      ⟨early, seen, gone, rfl, hseen, hgone⟩
    · exact absurd hstops (not_stopsAt_of_unseen hnone)
    · obtain ⟨hp, hsettled, hfirst⟩ := (stopsAt_of_seen early hseen hgone).mp hstops
      refine ⟨early, seen, gone, rfl, hseen, fun q hq => ?_, hsettled, hfirst⟩
      rcases List.mem_append.mp hq with hq | hq
      · exact hgone q hq
      · rwa [List.mem_singleton.mp hq]
  · rintro ⟨early, seen, gone, rfl, hseen, hgone, hsettled, hfirst⟩
    have hbefore : ∀ q ∈ gone, g ∉ q.nowRunning := fun q hq => hgone q (List.mem_append_left _ hq)
    exact (stopsAt_of_seen early hseen hbefore).mpr ⟨hgone p (by simp), hsettled, hfirst⟩

end Watcher

end Savr
