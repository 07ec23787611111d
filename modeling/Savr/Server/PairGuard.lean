import Savr.Daemon.Watcher
import Savr.Server.Accounts

/-!
# The lockout of device pairing

`PairGuard` of `savr-server/src/auth.rs`, and the handler `pair` of
`savr-server/src/api.rs` up to what it tells the guard.  A request asks the guard, evaluates
its code, and records the outcome; each of the three is atomic, and any number of requests
take their steps in any order, while the clock goes on.

The guard counts what is *recorded*.  What requests have evaluated and not recorded yet, it
does not see, and that is how far the number of guesses can exceed the limit.

## Main results

* `PairWorld.Sound.step` — the guard accounts for every wrong code but the unrecorded ones.
* `unlocked_wrong_lt` — what a request that is let through can rely on.
* `locked_of_run` — the lock period.
* `lockout_bounds_guesses` — when the limit holds.
-/

namespace Savr

open LabelledRun

/-! ## The guard -/

/-- How many failures are recorded before the guard locks. -/
def maxPairFails : ℕ := 5

/-- How long the guard is locked. -/
def pairLockSecs : ℕ := 5 * 60

/-- `Duration::from_secs`, in nanoseconds. -/
def fromSecs (secs : ℕ) : Instant := secs * 1000000000

/-- The errors of the handler, with their messages. -/
inductive PairError
  | tooMany (message : String)
  | unauthorized (message : String)
  /-- A statement fails. -/
  | internal (message : String)
  deriving DecidableEq, Repr

/-- The failures since the last success or the last expiry of a lockout that a later failure
noticed, and the end of the lockout, if there is one.  One guard stands for all accounts: a code
does not tell its account before it is evaluated. -/
structure PairGuard where
  fails : ℕ
  lockedUntil : Option Instant
  deriving DecidableEq, Repr

namespace PairGuard

/-- No failure yet, and no lock. -/
def new : PairGuard := ⟨0, none⟩

/-- Reject with 429 while locked out. -/
def check (g : PairGuard) (now : Instant) : Except PairError Unit :=
  match g.lockedUntil with
  | some deadline =>
      if now < deadline then
        .error (.tooMany "too many failed pairing attempts; try again later")
      else .ok ()
  | none => .ok ()

/-- The lock has run out. -/
def expired (g : PairGuard) (now : Instant) : Bool :=
  match g.lockedUntil with
  | some deadline => deadline ≤ now
  | none => false

/-- The clock is read once for the old lock, and once for a new one. -/
def recordFail (g : PairGuard) (now later : Instant) : PairGuard :=
  let g := if g.expired now then new else g
  { fails := g.fails + 1
    lockedUntil :=
      if maxPairFails ≤ g.fails + 1 then some (later + fromSecs pairLockSecs)
      else g.lockedUntil }

/-- A success clears everything, a lockout as well. -/
def recordSuccess (_ : PairGuard) : PairGuard := new

/-- The failures that still count. -/
def counted (g : PairGuard) (now : Instant) : ℕ := if g.expired now then 0 else g.fails

end PairGuard

/-! ## The requests -/

/-- What `redeem_pairing_code` returns. -/
abbrev Redeemed := Except PairError (Option AccountId)

/-- Where a request is. The guard is asked and told in separate steps, so requests can pass
it side by side. -/
inductive PairPhase
  | arrived
  /-- Let through by the guard. -/
  | letThrough
  /-- The code was wrong, and the failure is not recorded yet. -/
  | wrongCode
  | rightCode (account : AccountId)
  /-- The guard has been told, or need not be. -/
  | settled (outcome : Except PairError AccountId)
  deriving DecidableEq

/-- `check` let the request through, and its code is not evaluated yet. -/
def PairPhase.isLetThrough : PairPhase → Bool
  | letThrough => true
  | _ => false

/-- The code turned out wrong, and the failure is not recorded yet. -/
def PairPhase.isWrongCode : PairPhase → Bool
  | wrongCode => true
  | _ => false

/-- The guard, the clock, and the requests in the order in which they arrived. -/
structure PairWorld where
  guard : PairGuard
  clock : Instant
  requests : List PairPhase
  /-- How many wrong codes have been evaluated since the last successful pairing and the last
  expiry of a lockout; the code does not keep this number. -/
  wrong : ℕ

/-- A request arrives or makes a step. -/
inductive PairEvent
  | arrive
  /-- A request makes its next step, at this time; a recorded failure reads the clock once
  more; a code turns out so. -/
  | step (i : ℕ) (now later : Instant) (redeemed : Redeemed)

namespace PairWorld

/-- Let the time pass; where a lockout expires, the wrong codes are counted anew. -/
def advance (w : PairWorld) (now : Instant) : PairWorld :=
  { w with
    clock := now
    wrong := if w.guard.expired now ∧ ¬ w.guard.expired w.clock then 0 else w.wrong }

/-- The requests that have been let through, and whose codes are not evaluated yet. -/
def unevaluated (w : PairWorld) : ℕ := w.requests.countP PairPhase.isLetThrough

/-- The wrong codes that are not recorded yet. -/
def unrecorded (w : PairWorld) : ℕ := w.requests.countP PairPhase.isWrongCode

/-- One step of `pair`, at the present time: ask the guard, redeem the code, and tell the
guard how it went. -/
def stepPair (w : PairWorld) (i : ℕ) (later : Instant) (redeemed : Redeemed) :
    PairPhase → PairWorld
  | .arrived =>
      match w.guard.check w.clock with
      | .ok _ => { w with requests := w.requests.set i .letThrough }
      | .error e => { w with requests := w.requests.set i (.settled (.error e)) }
  | .letThrough =>
      match redeemed with
      | .ok (some account) => { w with requests := w.requests.set i (.rightCode account) }
      | .ok none => { w with requests := w.requests.set i .wrongCode, wrong := w.wrong + 1 }
      | .error e => { w with requests := w.requests.set i (.settled (.error e)) }
  | .wrongCode =>
      { w with
        guard := w.guard.recordFail w.clock later
        clock := later
        requests := w.requests.set i
          (.settled (.error (.unauthorized "invalid or expired pairing code"))) }
  | .rightCode account =>
      { guard := w.guard.recordSuccess
        clock := w.clock
        requests := w.requests.set i (.settled (.ok account))
        wrong := 0 }
  | .settled _ => w

/-- Time goes on, and a step is one of a request that has arrived. -/
def Enabled (w : PairWorld) : PairEvent → Prop
  | .arrive => True
  | .step i now later _ => w.clock ≤ now ∧ now ≤ later ∧ i < w.requests.length

instance (w : PairWorld) : DecidablePred w.Enabled
  | .arrive => inferInstanceAs (Decidable True)
  | .step i now later _ =>
      inferInstanceAs (Decidable (w.clock ≤ now ∧ now ≤ later ∧ i < w.requests.length))

/-- The state after an event. -/
def next (w : PairWorld) : PairEvent → PairWorld
  | .arrive => { w with requests := w.requests ++ [.arrived] }
  | .step i now later redeemed =>
      match w.requests[i]? with
      | some phase => (w.advance now).stepPair i later redeemed phase
      | none => w

/-- The server has just started. -/
structure New (w : PairWorld) : Prop where
  guard : w.guard = .new
  requests : w.requests = []
  wrong : w.wrong = 0

/-- This step lets a request through. -/
def LetsThrough (w : PairWorld) : PairEvent → Prop
  | .arrive => False
  | .step i now _ _ => w.requests[i]? = some .arrived ∧ w.guard.check now = .ok ()

instance (w : PairWorld) : DecidablePred w.LetsThrough
  | .arrive => inferInstanceAs (Decidable False)
  | .step i now _ _ =>
      inferInstanceAs (Decidable (w.requests[i]? = some .arrived ∧ w.guard.check now = .ok ()))

/-- This step records a success. -/
def RecordsSuccess (w : PairWorld) : PairEvent → Prop
  | .arrive => False
  | .step i _ _ _ => ∃ account, w.requests[i]? = some (.rightCode account)

/-- The wrong codes after the time of this step has come. -/
def wrongAt (w : PairWorld) : PairEvent → ℕ
  | .arrive => w.wrong
  | .step _ now _ _ => (w.advance now).wrong

/-- A request is let through only while the wrong codes and the codes that are not evaluated
yet are fewer than the limit. -/
def Sparing (w : PairWorld) (ev : PairEvent) : Prop :=
  w.LetsThrough ev → w.wrongAt ev + w.unevaluated < maxPairFails

instance (w : PairWorld) : DecidablePred w.Sparing :=
  fun ev => inferInstanceAs
    (Decidable (w.LetsThrough ev → w.wrongAt ev + w.unevaluated < maxPairFails))

end PairWorld

/-- One step of some request. -/
def PairStep : PairWorld → PairEvent → PairWorld → Prop := guarded PairWorld.Enabled PairWorld.next

/-! ## What the guard knows -/

namespace PairGuard

variable {g : PairGuard} {now later : Instant}

/-- The guard is locked, until a success, exactly when it has counted enough failures. -/
def Locks (g : PairGuard) : Prop := maxPairFails ≤ g.fails ↔ g.lockedUntil ≠ none

theorem locks_new : new.Locks :=
  ⟨fun hmax => absurd hmax (by decide), fun hlocked => absurd rfl hlocked⟩

/-- A lockout that has expired stays expired. -/
theorem expired_mono (h : g.expired now = true) (hle : now ≤ later) : g.expired later = true := by
  unfold expired at h ⊢
  cases hdeadline : g.lockedUntil with
  | none =>
      rw [hdeadline] at h
      cases h
  | some deadline =>
      rw [hdeadline] at h
      exact decide_eq_true ((of_decide_eq_true h).trans hle)

theorem counted_le (g : PairGuard) (now : Instant) : g.counted now ≤ g.fails := by
  unfold counted
  split_ifs
  · exact Nat.zero_le _
  · exact le_rfl

theorem counted_of_not_expired (h : g.expired now = false) : g.counted now = g.fails :=
  if_neg (Bool.not_eq_true _ ▸ h)

/-- The first failure after a lockout starts a new count. -/
theorem recordFail_of_expired (h : g.expired now = true) : g.recordFail now later = ⟨1, none⟩ := by
  rw [recordFail, if_pos h]
  rfl

theorem recordFail_of_not_expired (h : g.expired now = false) :
    g.recordFail now later = ⟨g.fails + 1,
      if maxPairFails ≤ g.fails + 1 then some (later + fromSecs pairLockSecs)
      else g.lockedUntil⟩ := by
  rw [recordFail, if_neg (Bool.not_eq_true _ ▸ h)]

/-- A failure that reaches the limit sets the lock. -/
theorem Locks.recordFail (h : g.Locks) : (g.recordFail now later).Locks := by
  cases hexpired : g.expired now with
  | true =>
      rw [recordFail_of_expired hexpired]
      exact ⟨fun hmax => absurd hmax (by decide), fun hlocked => absurd rfl hlocked⟩
  | false =>
      rw [recordFail_of_not_expired hexpired]
      by_cases hmax : maxPairFails ≤ g.fails + 1
      · rw [if_pos hmax]
        exact ⟨fun _ => nofun, fun _ => hmax⟩
      · rw [if_neg hmax]
        refine ⟨fun h => absurd h hmax, fun hlocked => absurd ?_ hmax⟩
        exact (h.mpr hlocked).trans (Nat.le_succ _)

/-- A request that is let through finds fewer failures than the limit. -/
theorem Locks.counted_lt (h : g.Locks) (hcheck : g.check now = .ok ()) :
    g.counted now < maxPairFails := by
  unfold check at hcheck
  cases hdeadline : g.lockedUntil with
  | none =>
      have hfails : g.fails < maxPairFails := Nat.lt_of_not_le fun hmax =>
        h.mp hmax hdeadline
      exact (counted_le g now).trans_lt hfails
  | some deadline =>
      simp only [hdeadline] at hcheck
      split_ifs at hcheck with hlocked
      have hexpired : g.expired now = true := by
        unfold expired
        rw [hdeadline]
        exact decide_eq_true (Nat.le_of_not_lt hlocked)
      rw [counted, if_pos hexpired]
      decide

theorem fromSecs_pos : 0 < fromSecs pairLockSecs := by decide

/-- A recorded failure counts from now on. -/
theorem Locks.counted_recordFail (h : g.Locks) :
    (g.recordFail now later).counted later = g.counted now + 1 := by
  cases hexpired : g.expired now with
  | true =>
      rw [recordFail_of_expired hexpired, counted, counted, if_pos hexpired]
      rfl
  | false =>
      rw [recordFail_of_not_expired hexpired, counted_of_not_expired hexpired]
      refine counted_of_not_expired ?_
      by_cases hmax : maxPairFails ≤ g.fails + 1
      · rw [if_pos hmax]
        exact decide_eq_false (Nat.not_le_of_gt (Nat.lt_add_of_pos_right fromSecs_pos))
      · -- fewer failures than the limit, so nothing was locked
        have hunlocked : g.lockedUntil = none := by
          by_contra hlocked
          exact hmax ((h.mpr hlocked).trans (Nat.le_succ _))
        rw [if_neg hmax, hunlocked]
        rfl

/-- The failure that reaches the limit locks the guard for the lock period. -/
theorem lockedUntil_recordFail (hmax : maxPairFails ≤ (g.recordFail now later).counted later) :
    (g.recordFail now later).lockedUntil = some (later + fromSecs pairLockSecs) := by
  replace hmax := hmax.trans (counted_le _ _)
  cases hexpired : g.expired now with
  | true =>
      rw [recordFail_of_expired hexpired] at hmax
      exact absurd hmax (by decide)
  | false =>
      rw [recordFail_of_not_expired hexpired] at hmax ⊢
      exact if_pos hmax

end PairGuard

/-! ## One step -/

/-- What a step can be. -/
theorem PairStep.cases {w w' : PairWorld} {ev : PairEvent} (h : PairStep w ev w') :
    (ev = .arrive ∧ w' = { w with requests := w.requests ++ [.arrived] }) ∨
      ∃ i now later redeemed phase, ev = .step i now later redeemed ∧ w.clock ≤ now ∧
        now ≤ later ∧ w.requests[i]? = some phase ∧
        w' = (w.advance now).stepPair i later redeemed phase := by
  obtain ⟨enabled, rfl⟩ := h
  cases ev with
  | arrive => exact .inl ⟨rfl, rfl⟩
  | step i now later redeemed =>
      obtain ⟨hnow, hlater, hi⟩ := enabled
      have hphase : w.requests[i]? = some w.requests[i] := List.getElem?_eq_getElem hi
      refine .inr ⟨i, now, later, redeemed, _, rfl, hnow, hlater, hphase, ?_⟩
      rw [PairWorld.next, hphase]

namespace PairWorld

variable {u v w w' : PairWorld} {ev : PairEvent} {i : ℕ} {now later : Instant}
  {redeemed : Redeemed} {phase : PairPhase}

/-- A request that moves on is counted where it goes, and not where it was. -/
theorem countP_set_phase {p : PairPhase → Bool} {l : List PairPhase} (phase' : PairPhase)
    (h : l[i]? = some phase) :
    (l.set i phase').countP p + (p phase).toNat = l.countP p + (p phase').toNat := by
  obtain ⟨hi, rfl⟩ := List.getElem?_eq_some_iff.mp h
  have hcounted : (p l[i]).toNat ≤ l.countP p := by
    have hle := List.boole_getElem_le_countP (p := p) hi
    cases hp : p l[i] <;> simp [hp] at hle ⊢
    exact hle
  have hset := List.countP_set (p := p) (a := phase') hi
  cases hp : p l[i] <;> cases hp' : p phase' <;> simp only [hp, hp', Bool.toNat_true,
    Bool.toNat_false, if_true, Bool.false_eq_true, if_false] at hset hcounted ⊢ <;> omega

theorem wrong_advance_le : (w.advance now).wrong ≤ w.wrong := by
  show (if _ then 0 else w.wrong) ≤ w.wrong
  split_ifs
  · exact Nat.zero_le _
  · exact le_rfl

/-- No time passes. -/
theorem advance_clock : w.advance w.clock = w := by
  have hsame : ¬(w.guard.expired w.clock = true ∧ ¬w.guard.expired w.clock = true) :=
    fun h => h.2 h.1
  rw [advance, if_neg hsame]

/-- What the guard knows of the wrong codes. -/
structure Sound (w : PairWorld) : Prop where
  locks : w.guard.Locks
  /-- Every wrong code is counted by the guard, or not recorded yet. -/
  accounts : w.wrong ≤ w.guard.counted w.clock + w.unrecorded

theorem New.sound (h : w.New) : w.Sound := by
  constructor
  · rw [h.guard]
    exact PairGuard.locks_new
  · rw [h.wrong]
    exact Nat.zero_le _

/-- Time goes on. -/
theorem Sound.advance (h : w.Sound) (hnow : w.clock ≤ now) : (w.advance now).Sound := by
  refine ⟨h.locks, ?_⟩
  have haccounts := h.accounts
  show (if _ then 0 else w.wrong) ≤ w.guard.counted now + w.unrecorded
  by_cases hexpires : w.guard.expired now = true ∧ ¬w.guard.expired w.clock = true
  · rw [if_pos hexpires]
    exact Nat.zero_le _
  · -- no lockout expires, so the same failures count as before
    have hsame : w.guard.expired now = w.guard.expired w.clock := by
      cases hbefore : w.guard.expired w.clock with
      | true => exact PairGuard.expired_mono hbefore hnow
      | false =>
          by_contra hafter
          exact hexpires ⟨Bool.not_eq_false _ ▸ hafter, by rw [hbefore]; exact Bool.false_ne_true⟩
    rw [if_neg hexpires, PairGuard.counted, hsame]
    exact haccounts

/-- A phase that neither counter counts. -/
def Quiet (phase : PairPhase) : Prop := phase.isLetThrough = false ∧ phase.isWrongCode = false

/-- What the step of a request does. -/
theorem stepPair_cases (u : PairWorld) (i : ℕ) (later : Instant) (redeemed : Redeemed)
    (phase : PairPhase) :
    (phase = .arrived ∧ u.guard.check u.clock = .ok () ∧
      u.stepPair i later redeemed phase =
        { u with requests := u.requests.set i .letThrough }) ∨
    (phase = .letThrough ∧ u.stepPair i later redeemed phase =
      { u with requests := u.requests.set i .wrongCode, wrong := u.wrong + 1 }) ∨
    (phase = .wrongCode ∧ ∃ phase', Quiet phase' ∧ u.stepPair i later redeemed phase =
      { guard := u.guard.recordFail u.clock later, clock := later
        requests := u.requests.set i phase', wrong := u.wrong }) ∨
    ((∃ account, phase = .rightCode account) ∧ ∃ phase', Quiet phase' ∧
      u.stepPair i later redeemed phase =
        { guard := .new, clock := u.clock, requests := u.requests.set i phase', wrong := 0 }) ∨
    (∃ phase', Quiet phase' ∧ phase.isWrongCode = false ∧ u.stepPair i later redeemed phase =
      { u with requests := u.requests.set i phase' }) ∨
    u.stepPair i later redeemed phase = u := by
  cases phase with
  | arrived =>
      cases hcheck : u.guard.check u.clock with
      | ok done =>
          refine .inl ⟨rfl, rfl, ?_⟩
          rw [stepPair, hcheck]
      | error e =>
          refine .inr (.inr (.inr (.inr (.inl ⟨.settled (.error e), ⟨rfl, rfl⟩, rfl, ?_⟩))))
          rw [stepPair, hcheck]
  | letThrough =>
      match redeemed with
      | .ok none => exact .inr (.inl ⟨rfl, rfl⟩)
      | .ok (some account) =>
          exact .inr (.inr (.inr (.inr (.inl ⟨.rightCode account, ⟨rfl, rfl⟩, rfl, rfl⟩))))
      | .error e =>
          exact .inr (.inr (.inr (.inr (.inl ⟨.settled (.error e), ⟨rfl, rfl⟩, rfl, rfl⟩))))
  | wrongCode => exact .inr (.inr (.inl ⟨rfl, .settled (.error _), ⟨rfl, rfl⟩, rfl⟩))
  | rightCode account =>
      exact .inr (.inr (.inr (.inl ⟨⟨account, rfl⟩, .settled (.ok account), ⟨rfl, rfl⟩, rfl⟩)))
  | settled outcome => exact .inr (.inr (.inr (.inr (.inr rfl))))

/-- A step of a request keeps the count of what is recorded. -/
theorem Sound.stepPair (h : u.Sound) (hphase : u.requests[i]? = some phase) :
    (u.stepPair i later redeemed phase).Sound := by
  have haccounts := h.accounts
  have hmoves : ∀ phase', (u.requests.set i phase').countP PairPhase.isWrongCode +
      phase.isWrongCode.toNat = u.unrecorded + phase'.isWrongCode.toNat := fun phase' =>
    countP_set_phase phase' hphase
  rcases u.stepPair_cases i later redeemed phase with ⟨rfl, -, heq⟩ | ⟨rfl, heq⟩ |
    ⟨rfl, phase', hquiet, heq⟩ | ⟨⟨account, rfl⟩, phase', hquiet, heq⟩ |
    ⟨phase', hquiet, hold, heq⟩ | heq <;> rw [heq]
  · exact ⟨h.locks, haccounts.trans_eq (congrArg _ (hmoves .letThrough).symm)⟩
  · have hmore : (u.requests.set i .wrongCode).countP PairPhase.isWrongCode = u.unrecorded + 1 :=
      hmoves .wrongCode
    refine ⟨h.locks, ?_⟩
    show u.wrong + 1 ≤ u.guard.counted u.clock + (u.requests.set i _).countP _
    omega
  · -- what was unrecorded is counted by the guard
    have hfewer : (u.requests.set i phase').countP PairPhase.isWrongCode + 1 = u.unrecorded := by
      have hmoved := hmoves phase'
      rw [hquiet.2] at hmoved
      exact hmoved
    refine ⟨h.locks.recordFail, ?_⟩
    show u.wrong ≤ (u.guard.recordFail u.clock later).counted later + (u.requests.set i _).countP _
    rw [h.locks.counted_recordFail]
    omega
  · exact ⟨PairGuard.locks_new, Nat.zero_le _⟩
  · have hsame := hmoves phase'
    rw [hquiet.2, hold] at hsame
    exact ⟨h.locks, haccounts.trans_eq (congrArg _ hsame.symm)⟩
  · exact h

theorem Sound.step (h : w.Sound) (step : PairStep w ev w') : w'.Sound := by
  rcases step.cases with ⟨-, rfl⟩ | ⟨i, now, later, redeemed, phase, -, hnow, -, hphase, rfl⟩
  · refine ⟨h.locks, h.accounts.trans_eq (congrArg _ ?_)⟩
    show _ = (w.requests ++ [PairPhase.arrived]).countP _
    rw [List.countP_append]
    rfl
  · exact (h.advance hnow).stepPair hphase

/-- **A request that is let through** finds fewer wrong codes than the limit, those apart that
the guard has not been told yet. -/
theorem Sound.wrongAt_lt (h : w.Sound) (enabled : w.Enabled ev) (hlets : w.LetsThrough ev) :
    w.wrongAt ev < maxPairFails + w.unrecorded := by
  cases ev with
  | arrive => exact hlets.elim
  | step i now later redeemed =>
      have hadvance := h.advance enabled.1
      have hcounted := h.locks.counted_lt hlets.2
      exact hadvance.accounts.trans_lt (Nat.add_lt_add_right hcounted _)

/-- The wrong codes, and those that may yet turn out wrong. -/
def exposure (w : PairWorld) : ℕ := w.wrong + w.unevaluated

/-- A step that spares the guard stays within the limit. -/
theorem exposure_stepPair (hphase : u.requests[i]? = some phase) (h : u.exposure ≤ maxPairFails)
    (hsparing : phase = .arrived → u.guard.check u.clock = .ok () → u.exposure < maxPairFails) :
    (u.stepPair i later redeemed phase).exposure ≤ maxPairFails := by
  have hmoves : ∀ phase', (u.requests.set i phase').countP PairPhase.isLetThrough +
      phase.isLetThrough.toNat = u.unevaluated + phase'.isLetThrough.toNat := fun phase' =>
    countP_set_phase phase' hphase
  have hquietMoves : ∀ {phase'}, Quiet phase' →
      (u.requests.set i phase').countP PairPhase.isLetThrough ≤ u.unevaluated := by
    intro phase' hquiet
    have hmoved := hmoves phase'
    rw [hquiet.1] at hmoved
    exact (Nat.le_add_right _ _).trans_eq hmoved
  rcases u.stepPair_cases i later redeemed phase with ⟨rfl, hcheck, heq⟩ | ⟨rfl, heq⟩ |
    ⟨rfl, phase', hquiet, heq⟩ | ⟨⟨account, rfl⟩, phase', hquiet, heq⟩ |
    ⟨phase', hquiet, hold, heq⟩ | heq <;> rw [heq]
  · have hmore : (u.requests.set i .letThrough).countP PairPhase.isLetThrough =
        u.unevaluated + 1 := hmoves .letThrough
    show u.wrong + (u.requests.set i _).countP _ ≤ maxPairFails
    rw [hmore]
    exact hsparing rfl hcheck
  · -- a code that was not evaluated turns out wrong
    have hfewer : (u.requests.set i .wrongCode).countP PairPhase.isLetThrough + 1 =
        u.unevaluated := hmoves .wrongCode
    show u.wrong + 1 + (u.requests.set i _).countP _ ≤ maxPairFails
    rw [Nat.add_assoc, Nat.add_comm 1, hfewer]
    exact h
  · exact (Nat.add_le_add_left (hquietMoves hquiet) _).trans h
  · exact (Nat.add_le_add (Nat.zero_le _) (hquietMoves hquiet)).trans h
  · exact (Nat.add_le_add_left (hquietMoves hquiet) _).trans h
  · exact h

/-- A sparing step keeps the exposure within the bound. -/
theorem exposure_step (h : w.exposure ≤ maxPairFails) (step : PairStep w ev w')
    (hsparing : w.Sparing ev) : w'.exposure ≤ maxPairFails := by
  rcases step.cases with ⟨-, rfl⟩ | ⟨i, now, later, redeemed, phase, rfl, hnow, -, hphase, rfl⟩
  · show w.wrong + (w.requests ++ [PairPhase.arrived]).countP _ ≤ maxPairFails
    rw [List.countP_append]
    exact h
  · refine exposure_stepPair hphase ((Nat.add_le_add_right wrong_advance_le _).trans h) ?_
    rintro rfl hcheck
    exact hsparing ⟨hphase, hcheck⟩

/-- So does a run of such steps, and the wrong guesses are part of the exposure. -/
theorem wrong_le_of_run {trace : List PairEvent} (run : Run (under PairStep Sparing) u trace w)
    (new : u.New) : w.wrong ≤ maxPairFails := by
  have hexposure : w.exposure ≤ maxPairFails := by
    refine run.invariant (I := fun w => w.exposure ≤ maxPairFails)
      (fun _ _ _ h step => exposure_step h step.1 step.2) ?_
    rw [exposure, unevaluated, new.wrong, new.requests]
    exact Nat.zero_le _
  exact (Nat.le_add_right _ _).trans hexposure

/-- **Codes that are not evaluated yet can all turn out wrong**, before any of them is
recorded. -/
theorem exists_all_wrong (n : ℕ) (hcount : w.unevaluated = n) : ∃ more v,
    Run PairStep w more v ∧ v.wrong = w.wrong + n ∧ v.guard = w.guard ∧ v.clock = w.clock := by
  induction n generalizing w with
  | zero => exact ⟨[], w, Run.nil, rfl, rfl, rfl⟩
  | succ n ih =>
      obtain ⟨phase, hmem, hthrough⟩ := List.countP_pos_iff.mp
        (Nat.lt_of_lt_of_eq n.succ_pos hcount.symm)
      obtain ⟨i, hi, hphase⟩ := List.getElem_of_mem hmem
      obtain rfl : phase = .letThrough := by cases phase <;> first | rfl | cases hthrough
      have hsome : w.requests[i]? = some .letThrough :=
        List.getElem?_eq_some_iff.mpr ⟨hi, hphase⟩
      have hnext : w.next (.step i w.clock w.clock (.ok none)) =
          { w with requests := w.requests.set i .wrongCode, wrong := w.wrong + 1 } := by
        rw [next, hsome]
        show (w.advance w.clock).stepPair i w.clock (.ok none) .letThrough = _
        rw [advance_clock]
        rfl
      have hfewer : (w.next (.step i w.clock w.clock (.ok none))).unevaluated = n := by
        rw [hnext]
        have hmoved := countP_set_phase (p := PairPhase.isLetThrough) .wrongCode hsome
        exact Nat.succ_injective (hmoved.trans hcount)
      obtain ⟨more, v, hmore, hwrong, hguard, hclock⟩ := ih hfewer
      rw [hnext] at hwrong hguard hclock
      have first : PairStep w (.step i w.clock w.clock (.ok none)) _ :=
        ⟨⟨le_rfl, le_rfl, hi⟩, rfl⟩
      refine ⟨_, v, (Run.single first).trans hmore, ?_, hguard, hclock⟩
      rw [hwrong, Nat.add_right_comm, Nat.add_assoc]

/-- A request too many: the limit can be exceeded, and the guard still lets requests through. -/
theorem exceeds_of_not_sparing (step : PairStep w ev w') (hnot : ¬w.Sparing ev) :
    ∃ more v, Run PairStep w' more v ∧ maxPairFails < v.wrong ∧
      v.guard.check v.clock = .ok () := by
  obtain ⟨hlets, hmany⟩ := Classical.not_imp.mp hnot
  rcases step.cases with ⟨rfl, -⟩ | ⟨i, now, later, redeemed, phase, rfl, -, -, hphase, rfl⟩
  · exact hlets.elim
  · obtain ⟨harrived, hcheck⟩ := hlets
    obtain rfl := Option.some.inj (hphase.symm.trans harrived)
    have hthrough : (w.advance now).stepPair i later redeemed .arrived =
        { w.advance now with requests := w.requests.set i .letThrough } := by
      rw [stepPair]
      show (match w.guard.check now with | .ok _ => _ | .error e => _) = _
      rw [hcheck]
      rfl
    rw [hthrough]
    obtain ⟨more, v, hmore, hwrong, hguard, hclock⟩ := exists_all_wrong _ (Eq.refl
      ({ w.advance now with requests := w.requests.set i .letThrough } : PairWorld).unevaluated)
    have hmoved : (w.requests.set i .letThrough).countP PairPhase.isLetThrough =
        w.unevaluated + 1 := countP_set_phase (p := PairPhase.isLetThrough) .letThrough hphase
    refine ⟨more, v, hmore, ?_, ?_⟩
    · rw [hwrong]
      show maxPairFails < (w.advance now).wrong + (w.requests.set i _).countP _
      rw [hmoved]
      exact Nat.lt_succ_of_le (Nat.le_of_not_lt hmany)
    · rw [hguard, hclock]
      exact hcheck

/-- Locked at least until this time. -/
def LockedUntil (w : PairWorld) (time : Instant) : Prop :=
  w.clock < time → ∃ deadline, w.guard.lockedUntil = some deadline ∧ time ≤ deadline

/-- Only a success ends a lockout before its time. -/
theorem lockedUntil_step {locked : Instant} (h : w.Sound) (step : PairStep w ev w')
    (hno : ¬w.RecordsSuccess ev) (hsince : locked ≤ w.clock)
    (hlocked : w.LockedUntil (locked + fromSecs pairLockSecs)) :
    locked ≤ w'.clock ∧ w'.LockedUntil (locked + fromSecs pairLockSecs) := by
  rcases step.cases with ⟨-, rfl⟩ | ⟨i, now, later, redeemed, phase, rfl, hnow, hlater, hphase, rfl⟩
  · exact ⟨hsince, hlocked⟩
  · have hadvance : (w.advance now).LockedUntil (locked + fromSecs pairLockSecs) := fun hlt =>
      hlocked (Nat.lt_of_le_of_lt hnow hlt)
    rcases (w.advance now).stepPair_cases i later redeemed phase with ⟨rfl, hcheck, heq⟩ |
      ⟨rfl, heq⟩ | ⟨rfl, phase', hquiet, heq⟩ | ⟨⟨account, rfl⟩, phase', hquiet, heq⟩ |
      ⟨phase', hquiet, hold, heq⟩ | heq <;> rw [heq]
    · exact ⟨hsince.trans hnow, hadvance⟩
    · exact ⟨hsince.trans hnow, hadvance⟩
    · -- a failure that is recorded while the guard is locked locks it anew
      refine ⟨hsince.trans (hnow.trans hlater), fun hlt => ?_⟩
      have hbefore : now < locked + fromSecs pairLockSecs := Nat.lt_of_le_of_lt hlater hlt
      obtain ⟨deadline, hdeadline, hle⟩ := hadvance hbefore
      have hexpired : w.guard.expired now = false := by
        rw [PairGuard.expired, show w.guard.lockedUntil = some deadline from hdeadline]
        exact decide_eq_false (Nat.not_le_of_gt (hbefore.trans_le hle))
      have hmax : maxPairFails ≤ w.guard.fails + 1 :=
        (h.locks.mpr (show w.guard.lockedUntil ≠ none from hdeadline ▸ nofun)).trans
          (Nat.le_succ _)
      refine ⟨later + fromSecs pairLockSecs, ?_,
        Nat.add_le_add_right (hsince.trans (hnow.trans hlater)) _⟩
      show (w.guard.recordFail now later).lockedUntil = _
      rw [PairGuard.recordFail_of_not_expired hexpired]
      exact if_pos hmax
    · exact absurd ⟨account, hphase⟩ hno
    · exact ⟨hsince.trans hnow, hadvance⟩
    · exact ⟨hsince.trans hnow, hadvance⟩

theorem LockedUntil.check {time : Instant} (h : w.LockedUntil time) (hlt : w.clock < time) :
    w.guard.check w.clock =
      .error (.tooMany "too many failed pairing attempts; try again later") := by
  obtain ⟨deadline, hdeadline, hle⟩ := h hlt
  rw [PairGuard.check, hdeadline]
  exact if_pos (hlt.trans_le hle)

/-- **The lock period.**  After the failure that reaches the limit, every request is refused
until the period is over or a success is recorded. -/
theorem refused_of_run {more : List PairEvent} (h : w.Sound)
    (hphase : w.requests[i]? = some .wrongCode)
    (step : PairStep w (.step i now later redeemed) w')
    (hmax : maxPairFails ≤ w'.guard.counted w'.clock)
    (run : Run (under PairStep fun u ev => ¬u.RecordsSuccess ev) w' more v)
    (hlt : v.clock < later + fromSecs pairLockSecs) :
    v.guard.check v.clock =
      .error (.tooMany "too many failed pairing attempts; try again later") := by
  have hrecorded : w' = (w.advance now).stepPair i later redeemed .wrongCode := by
    rw [step.2, next, hphase]
  have hlocked : w'.LockedUntil (later + fromSecs pairLockSecs) := by
    subst hrecorded
    exact fun _ => ⟨_, PairGuard.lockedUntil_recordFail hmax, le_rfl⟩
  have hinv := run.invariant (I := fun v => v.Sound ∧ later ≤ v.clock ∧
      v.LockedUntil (later + fromSecs pairLockSecs))
    (fun _ _ _ hI last => ⟨hI.1.step last.1,
      lockedUntil_step hI.1 last.1 last.2 hI.2.1 hI.2.2⟩)
    ⟨h.step step, by rw [hrecorded]; exact le_rfl, hlocked⟩
  exact hinv.2.2.check hlt

/-- A request is let through only if no other one is between the guard's answer and the recording
of a failure. -/
def Serial (w : PairWorld) (ev : PairEvent) : Prop :=
  w.LetsThrough ev → w.unevaluated = 0 ∧ w.unrecorded = 0

/-- The guard itself sees to it that serial requests spare the limit. -/
theorem Sound.sparing_of_serial (h : w.Sound) (enabled : w.Enabled ev) (serial : w.Serial ev) :
    w.Sparing ev := by
  intro hlets
  obtain ⟨hevaluated, hrecorded⟩ := serial hlets
  have hwrong := h.wrongAt_lt enabled hlets
  rw [hrecorded, Nat.add_zero] at hwrong
  rwa [hevaluated, Nat.add_zero]

/-- **One after the other**, requests evaluate at most `maxPairFails` wrong codes since the last
successful pairing and the last expiry of a lockout. -/
theorem wrong_le_of_serial_run {trace : List PairEvent}
    (run : Run (under PairStep Serial) u trace w) (new : u.New) : w.wrong ≤ maxPairFails := by
  have hinv : w.Sound ∧ w.exposure ≤ maxPairFails := by
    refine run.invariant (I := fun w => w.Sound ∧ w.exposure ≤ maxPairFails)
      (fun _ _ _ h step => ⟨h.1.step step.1,
        exposure_step h.2 step.1 (h.1.sparing_of_serial step.1.1 step.2)⟩) ⟨new.sound, ?_⟩
    rw [exposure, unevaluated, new.wrong, new.requests]
    exact Nat.zero_le _
  exact (Nat.le_add_right _ _).trans hinv.2

end PairWorld

open PairWorld in
/-- **When the lockout bounds the guesses.**  Since the last successful pairing and the last
expiry of a lockout, at most `maxPairFails` wrong codes are evaluated in every run that lets a
request through only while the wrong codes, and the requests whose codes are not evaluated
yet, are fewer than that; and any other run can be continued so that more wrong codes are
evaluated and requests are still let through.  The guard itself sees to the former for all
wrong codes but those that requests have not recorded yet, and when it has counted
`maxPairFails` failures it refuses every request for the lock period, unless a success is
recorded. -/
theorem lockout_bounds_guesses {w₀ : PairWorld} (new : w₀.New) :
    (∀ trace w, Run (under PairStep Sparing) w₀ trace w → w.wrong ≤ maxPairFails) ∧
    (∀ trace w ev w', Run PairStep w₀ trace w → PairStep w ev w' → ¬w.Sparing ev →
      ∃ more v, Run PairStep w' more v ∧ maxPairFails < v.wrong ∧
        v.guard.check v.clock = .ok ()) ∧
    (∀ trace w ev, Run PairStep w₀ trace w → w.Enabled ev → w.LetsThrough ev →
      w.wrongAt ev < maxPairFails + w.unrecorded) ∧
    ∀ trace w i now later redeemed w' more v, Run PairStep w₀ trace w →
      w.requests[i]? = some .wrongCode → PairStep w (.step i now later redeemed) w' →
      maxPairFails ≤ w'.guard.counted w'.clock →
      Run (under PairStep fun u ev => ¬u.RecordsSuccess ev) w' more v →
      v.clock < later + fromSecs pairLockSecs →
      v.guard.check v.clock =
        .error (.tooMany "too many failed pairing attempts; try again later") := by
  have sound : ∀ {trace w}, Run PairStep w₀ trace w → w.Sound := fun run =>
    run.invariant (fun _ _ _ h step => h.step step) new.sound
  exact ⟨fun _ _ run => wrong_le_of_run run new,
    fun _ _ _ _ _ step hnot => exceeds_of_not_sparing step hnot,
    fun _ _ _ run enabled hlets => (sound run).wrongAt_lt enabled hlets,
    fun _ _ _ _ _ _ _ _ _ run hphase step hmax hrun hlt =>
      refused_of_run (sound run) hphase step hmax hrun hlt⟩

section Example

/-- The server a second after its start. -/
def freshServer : PairWorld := ⟨.new, fromSecs 1, [], 0⟩

/-- This request makes its next step; where it is evaluated, its code is wrong. -/
def guess (i secs : ℕ) : PairEvent := .step i (fromSecs secs) (fromSecs secs) (.ok none)

/-- Six requests pass the guard before the first failure is recorded. -/
def sixAtOnce : List PairEvent :=
  List.replicate 6 .arrive ++ (List.range 6).map (guess · 2) ++ (List.range 6).map (guess · 3)

/-- Requests one after the other, the sixth before the lock period is over. -/
def oneByOne : List PairEvent :=
  (List.range 5).flatMap (fun i => [.arrive, guess i 2, guess i 2, guess i 2]) ++
    [.arrive, guess 5 5]

theorem concurrent_guesses_exceed_limit :
    ¬∀ trace w, Run PairStep freshServer trace w →
      w.guard.check w.clock = .ok () → w.wrong ≤ maxPairFails := by
  intro h
  have run : Run PairStep freshServer sixAtOnce (sixAtOnce.foldl PairWorld.next freshServer) :=
    Run.of_enabled (by decide +kernel)
  exact absurd (h _ _ run (by decide +kernel)) (by decide +kernel)

/-- In the example the sixth guess in a row is locked out. -/
theorem sequential_guesses_locked_out :
    (oneByOne.foldl PairWorld.next freshServer).wrong ≤ maxPairFails ∧
    (oneByOne.foldl PairWorld.next freshServer).requests[5]? =
      some (.settled (.error (.tooMany "too many failed pairing attempts; try again later"))) := by
  have run : Run (under PairStep PairWorld.Sparing) freshServer oneByOne
      (oneByOne.foldl PairWorld.next freshServer) :=
    Run.under_of_enabled (Run.of_enabled (by decide +kernel))
  exact ⟨(lockout_bounds_guesses ⟨rfl, rfl, rfl⟩).1 _ _ run, by decide +kernel⟩

end Example

end Savr
