import Savr.Daemon.Catalog

/-!
# The stored game ids over any sequence of calls

Calls of `game_id_for` on one device, one after the other.  At each call the read of the
local store, its write and the request to the server may fail independently, the device may
be authenticated or not, and the server is whatever it has become.

The fresh id is drawn where nothing is cached, and stored only where the key is known to be
absent; so a stored id can only make way for one the server answered with.

## Main results

* `perform_keeps` — what one call does to a stored id.
* `stored_id_never_clobbered` — what any sequence of calls does.
-/

namespace Savr

open LabelledRun

/-- One call of `game_id_for`, with the server it finds and what the environment decides. -/
structure IdentityCall where
  /-- The account to ask the server for, where the device is authenticated. -/
  account : Option AccountId
  appid : Option ℕ
  title : String
  server : Server
  env : IdentityEnv

namespace IdentityCall

/-- The key under which the device looks up the id. -/
def key (c : IdentityCall) : String := gameKey c.appid c.title

/-- What the call returns and leaves behind. -/
def perform (c : IdentityCall) (ids : GameIds) : Identified :=
  gameIdFor ids c.server c.account c.appid c.title c.env

/-- What `ensure_game` answers, if it is called and its answer arrives. -/
def answer (c : IdentityCall) : Option EnsuredGame :=
  c.account.bind fun account => (requestGame c.server account c.appid c.title c.env).2

/-- `ensure_game` returns this id, for the game of this key. -/
def Returns (c : IdentityCall) (key : String) (id : GameId) : Prop :=
  c.key = key ∧ ∃ game, c.answer = some game ∧ game.id = id

end IdentityCall

/-- The local store before and after a call. -/
def IdentityStep : GameIds → IdentityCall → GameIds → Prop :=
  guarded (fun _ _ => True) fun ids c => (c.perform ids).ids

section Calls

variable {ids ids₀ ids' : GameIds} {c : IdentityCall} {calls : List IdentityCall} {key : String}
  {id : GameId} {s s' : Server} {env : IdentityEnv} {cached : Option GameId} {saved : Bool}

theorem setMeta_cases : setMeta ids saved key id = ids ∨
    setMeta ids saved key id = Function.update ids key (some (some id)) := by
  unfold setMeta
  split_ifs
  · exact .inr rfl
  · exact .inl rfl

theorem setMeta_of_ne {key' : String} (hne : key ≠ key') :
    setMeta ids saved key' id key = ids key := by
  have hcases : setMeta ids saved key' id = ids ∨
      setMeta ids saved key' id = Function.update ids key' (some (some id)) := setMeta_cases
  rcases hcases with h | h
  · rw [h]
  · rw [h, Function.update_of_ne hne]

/-- An answered call stores the id of the answer, or nothing. -/
theorem perform_of_answer {game : EnsuredGame} (h : c.answer = some game) (ids : GameIds) :
    (c.perform ids).id = game.id ∧ ((c.perform ids).ids = ids ∨
      (c.perform ids).ids = Function.update ids c.key (some (some game.id))) := by
  obtain ⟨account, haccount, hreply⟩ := Option.bind_eq_some_iff.mp h
  cases hrequest : requestGame c.server account c.appid c.title c.env with
  | mk s' reply =>
      rw [hrequest] at hreply
      obtain rfl : reply = some game := hreply
      simp only [IdentityCall.perform, gameIdFor, haccount, hrequest]
      exact ⟨trivial, setMeta_cases⟩

/-- An unanswered call is left to the local store. -/
theorem perform_of_no_answer (h : c.answer = none) (ids : GameIds) :
    ∃ s, c.perform ids =
      localIdentity ids s c.key (if c.env.readOk then (ids c.key).join else none) c.env := by
  unfold IdentityCall.perform gameIdFor
  cases haccount : c.account with
  | none => exact ⟨c.server, rfl⟩
  | some account =>
      rw [IdentityCall.answer, haccount, Option.bind_some] at h
      cases hrequest : requestGame c.server account c.appid c.title c.env with
      | mk s' reply =>
          rw [hrequest] at h
          obtain rfl : reply = none := h
          exact ⟨s', by simp only [hrequest]; rfl⟩

/-- **One call and a stored id.**  The id stays, or makes way for one that `ensure_game`
returned for this game; and a call whose read succeeds and that is not answered returns the
stored id. -/
theorem perform_keeps (c : IdentityCall) (stored : ids key = some (some id)) :
    ((c.perform ids).ids key = some (some id) ∨
      ∃ new, (c.perform ids).ids key = some (some new) ∧ c.Returns key new) ∧
    (c.key = key → c.env.readOk = true → c.answer = none → (c.perform ids).id = id) := by
  cases hanswer : c.answer with
  | some game =>
      refine ⟨?_, fun _ _ hnone => by cases hnone⟩
      rcases (perform_of_answer hanswer ids).2 with hids | hids
      · rw [hids]
        exact .inl stored
      · rw [hids]
        by_cases hkey : key = c.key
        · subst hkey
          exact .inr ⟨game.id, Function.update_self .., rfl, game, hanswer, rfl⟩
        · rw [Function.update_of_ne hkey]
          exact .inl stored
  | none =>
      obtain ⟨s, hlocal⟩ := perform_of_no_answer hanswer ids
      rw [hlocal]
      by_cases hkey : key = c.key
      · subst hkey
        rw [stored]
        cases hread : c.env.readOk with
        | true => exact ⟨.inl stored, fun _ _ _ => rfl⟩
        | false =>
            -- the fresh id is not stored: the key is not known to be absent
            refine ⟨.inl ?_, fun _ hok => by cases hok⟩
            show setMeta ids (c.env.readOk && c.env.saved) c.key c.env.localId c.key = _
            rw [hread]
            exact stored
      · refine ⟨.inl ?_, fun heq => absurd heq.symm hkey⟩
        unfold localIdentity
        split
        · exact stored
        · show setMeta ids _ c.key _ key = _
          rw [setMeta_of_ne hkey, stored]

/-- **A stored game id is never clobbered.**  Over any sequence of calls, whichever reads,
writes and requests fail: once a valid id is stored under the key of a game, what is stored
there is this id or one that `ensure_game` has returned for the game; every single call
leaves the stored id or stores what `ensure_game` returned to it; and every call whose read
succeeds and that the server does not answer returns the id stored at the time. -/
theorem stored_id_never_clobbered (run : Run IdentityStep ids₀ calls ids)
    (stored : ids₀ key = some (some id)) :
    (∃ current, ids key = some (some current) ∧
      (current = id ∨ ∃ c ∈ calls, c.Returns key current)) ∧
    ∀ pre c post, calls = pre ++ c :: post → ∃ before after, Run IdentityStep ids₀ pre before ∧
      IdentityStep before c after ∧ Run IdentityStep after post ids ∧
      ∃ current, before key = some (some current) ∧
        (after key = some (some current) ∨
          ∃ new, after key = some (some new) ∧ c.Returns key new) ∧
        (c.key = key → c.env.readOk = true → c.answer = none →
          (c.perform before).id = current) := by
  have hstored : ∀ {calls ids}, Run IdentityStep ids₀ calls ids →
      ∃ current, ids key = some (some current) ∧
        (current = id ∨ ∃ c ∈ calls, c.Returns key current) := by
    intro calls ids run
    refine run.invariant_trace (I := fun calls ids => ∃ current, ids key = some (some current) ∧
      (current = id ∨ ∃ c ∈ calls, c.Returns key current)) ?_ ⟨id, stored, .inl rfl⟩
    rintro calls ids c ids' ⟨current, hcurrent, horigin⟩ ⟨-, rfl⟩
    rcases (perform_keeps c hcurrent).1 with hkept | ⟨new, hnew, hreturns⟩
    · refine ⟨current, hkept, horigin.imp_right ?_⟩
      rintro ⟨c', hc', hreturns⟩
      exact ⟨c', List.mem_append_left _ hc', hreturns⟩
    · exact ⟨new, hnew, .inr ⟨c, by simp, hreturns⟩⟩
  refine ⟨hstored run, ?_⟩
  rintro pre c post rfl
  obtain ⟨before, after, hpre, hstep, hpost⟩ := run.split
  obtain ⟨current, hcurrent, -⟩ := hstored hpre
  obtain ⟨hkept, hreturned⟩ := perform_keeps c hcurrent
  obtain ⟨-, rfl⟩ := hstep
  exact ⟨before, _, hpre, ⟨trivial, rfl⟩, hpost, current, hcurrent, hkept, hreturned⟩

end Calls

section Example

/-- An id is stored for one game. -/
def storedCeleste : GameIds :=
  fun key => if key = gameKey none "Celeste" then some (some 7) else none

/-- A call for one title without an appid, to an account that has no games yet. -/
def celesteCall (account : Option AccountId) (readOk : Bool) (delivery : Delivery) :
    IdentityCall where
  account := account
  appid := none
  title := "Celeste"
  server := newAccountServer
  env := { undisturbed 31 with readOk, delivery, localId := 8 }

/-- The device is not paired yet; then a read and the request fail; then the server answers. -/
def celesteCalls : List IdentityCall :=
  [celesteCall none true .answered, celesteCall (some 1) false .lost,
    celesteCall (some 1) true .answered]

/-- Over these calls the stored id of the game stays, or gives way to one that a call returned. -/
theorem celeste_keeps_identity :
    ∃ current, celesteCalls.foldl (fun ids c => (c.perform ids).ids) storedCeleste
        (gameKey none "Celeste") = some (some current) ∧
      (current = 7 ∨ ∃ c ∈ celesteCalls, c.Returns (gameKey none "Celeste") current) := by
  have run : Run IdentityStep storedCeleste celesteCalls
      (celesteCalls.foldl (fun ids c => (c.perform ids).ids) storedCeleste) :=
    Run.of_enabled ⟨trivial, trivial, trivial, trivial⟩
  exact (stored_id_never_clobbered run (by decide)).1

/-- An unreadable store makes the call return a passing id, and keeps the stored one. -/
example : ((celesteCall (some 1) false .lost).perform storedCeleste).id = 8 ∧
    ((celesteCall (some 1) false .lost).perform storedCeleste).ids (gameKey none "Celeste") =
      some (some 7) := by
  decide

end Example

end Savr
