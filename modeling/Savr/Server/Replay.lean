import Savr.Server.HeadCas
import Savr.Server.Hub

/-!
# Replay and live delivery

On `Hello` a socket re-registers, asks the database for the versions above the `seq`s
the device reports, and enqueues them.  An upload commits, and later its push runs.
None of these steps waits for another, so a push may run before the socket opened, or
the commit may come after the query.

`no_push_lost` says that the order of the socket's own steps covers every case: what
was committed before the query is replayed, and what is committed after it is pushed to
a socket that is registered already.
-/

namespace Savr

open LabelledRun RankedList

/-- The `seq` a device reports for each game it knows. -/
abbrev LastSeq := GameId → Option ℕ

/-- Versions with `seq` greater than the device's `last_seq`, `ORDER BY game_id, seq`.
Games absent from the map use a threshold of 0. -/
def Db.versionsSince (db : Db) (account : AccountId) (lastSeq : LastSeq) :
    List (GameId × VersionId × ℕ) :=
  let rows := sortBy (fun v => v.gameId)
    (sortBy (fun v => v.seq) (db.versions.filter fun v => v.accountId = account))
  (rows.filter fun v => (lastSeq v.gameId).getD 0 < v.seq).map fun v => (v.gameId, v.id, v.seq)

/-- What a replay covers: the versions with a higher number, game by game. -/
theorem Db.mem_versionsSince {db : Db} {account : AccountId} {lastSeq : LastSeq}
    {gameId : GameId} {id : VersionId} {seq : ℕ} :
    (gameId, id, seq) ∈ db.versionsSince account lastSeq ↔
      (lastSeq gameId).getD 0 < seq ∧ ∃ row ∈ db.versions, row.accountId = account ∧
        row.gameId = gameId ∧ row.id = id ∧ row.seq = seq := by
  simp only [versionsSince, List.mem_map, List.mem_filter, mem_sortBy, Prod.mk.injEq,
    decide_eq_true_eq]
  constructor
  · rintro ⟨row, ⟨⟨hrow, hacc⟩, hlt⟩, rfl, rfl, rfl⟩
    exact ⟨hlt, row, hrow, hacc, rfl, rfl, rfl⟩
  · rintro ⟨hlt, row, hrow, hacc, rfl, rfl, rfl⟩
    exact ⟨row, ⟨⟨hrow, hacc⟩, hlt⟩, rfl, rfl, rfl⟩

/-- The versions of a game are listed by `seq`. -/
theorem Db.versionsSince_ordered (db : Db) (account : AccountId) (lastSeq : LastSeq) :
    (db.versionsSince account lastSeq).Pairwise fun a b => a.1 = b.1 → a.2.2 ≤ b.2.2 := by
  rw [versionsSince, List.pairwise_map]
  exact (sortBy_stable (sortBy_pairwise _)).filter _

/-- How far the handling of a `Hello` has come. -/
inductive HelloPhase
  | idle
  | registered (lastSeq : LastSeq)
  | queried (lastSeq : LastSeq) (missed : List (GameId × VersionId × ℕ))

/-- The server around one socket, the only one of its device. Uploads by other devices commit
and push in separate steps. -/
structure SocketWorld where
  db : Db
  hub : Hub
  queues : SocketId → List ServerMsg
  opened : Bool
  hello : HelloPhase
  /-- What the `Hello`s reported that have been handled. -/
  handled : List LastSeq
  /-- Pushes of committed uploads that have not run yet. -/
  pending : List Broadcast
  /-- Pushes that have run. -/
  sent : List Broadcast

/-- What happens next: a step of the socket's task, or an upload of another device. The five
steps of the socket may have any others in between. -/
inductive SocketEvent
  | opens
  | helloRegister (lastSeq : LastSeq)
  | helloQuery
  | helloEnqueue
  /-- The transaction of an upload by another device. -/
  | commit (c : CreateCall)
  /-- The push of a committed upload. -/
  | push (b : Broadcast)
  /-- Another device's socket. -/
  | otherRegister (s : Socket)
  | otherDeregister (s : Socket)

namespace SocketWorld

variable (me : Socket)

/-- Uploads come from other devices, each posting its own device id. The socket's steps come
in their order, as often as it says `Hello`. -/
def Enabled (w : SocketWorld) : SocketEvent → Prop
  | .opens => w.opened = false
  | .helloRegister _ => w.opened = true ∧ w.hello = .idle
  | .helloQuery => ∃ lastSeq, w.hello = .registered lastSeq
  | .helloEnqueue => ∃ lastSeq missed, w.hello = .queried lastSeq missed
  | .commit c => c.Fresh w.db ∧ (c.account = me.account → c.req.deviceId ≠ me.device)
  | .push b => b ∈ w.pending
  | .otherRegister s | .otherDeregister s =>
      (s.account, s.device) ≠ (me.account, me.device)

/-- The pushes a committed upload leaves to do. -/
def pushesOf (c : CreateCall) : Except ApiError Advance → List Broadcast
  | .ok advance => Server.createBroadcasts c.account c.gameId advance
  | .error _ => []

/-- The messages of a replay. -/
def replayMsgs (missed : List (GameId × VersionId × ℕ)) : List ServerMsg :=
  missed.map fun (gameId, id, seq) => .versionAvailable gameId id seq

theorem mem_replayMsgs {missed : List (GameId × VersionId × ℕ)} {gameId : GameId}
    {id : VersionId} {seq : ℕ} :
    .versionAvailable gameId id seq ∈ replayMsgs missed ↔ (gameId, id, seq) ∈ missed := by
  simp [replayMsgs]

/-- The state after an event. A `Hello` registers, queries and enqueues in three steps. -/
def next (w : SocketWorld) : SocketEvent → SocketWorld
  | .opens => { w with hub := w.hub.register me.account me.device me.id, opened := true }
  | .helloRegister lastSeq =>
      { w with hub := w.hub.register me.account me.device me.id, hello := .registered lastSeq }
  | .helloQuery =>
      match w.hello with
      | .registered lastSeq =>
          { w with hello := .queried lastSeq (w.db.versionsSince me.account lastSeq) }
      | _ => w
  | .helloEnqueue =>
      match w.hello with
      | .queried lastSeq missed =>
          { w with
            queues := Function.update w.queues me.id (w.queues me.id ++ replayMsgs missed)
            hello := .idle
            handled := lastSeq :: w.handled }
      | _ => w
  | .commit c =>
      { w with db := (w.db.create c).1, pending := w.pending ++ pushesOf c (w.db.create c).2 }
  | .push b =>
      { w with
        queues := w.hub.broadcast b w.queues
        pending := w.pending.erase b
        sent := b :: w.sent }
  | .otherRegister s => { w with hub := w.hub.register s.account s.device s.id }
  | .otherDeregister s => { w with hub := w.hub.deregister s.account s.device }

/-- The socket is not open yet.  The database is any that the server can have: versions of this
device and of others, heads, open branches, chains that were pruned. -/
structure New (w : SocketWorld) : Prop where
  wf : w.db.WF
  opened : w.opened = false
  hello : w.hello = .idle
  handled : w.handled = []
  pending : w.pending = []
  sent : w.sent = []

/-- A push of this account announces the version. -/
def Announced (bs : List Broadcast) (gameId : GameId) (id : VersionId) (seq : ℕ) : Prop :=
  ∃ b ∈ bs, b.accountId = me.account ∧ b.msg = .versionAvailable gameId id seq

/-- What holds between the steps: whatever was pushed has reached the queue, or will be found
by the query that is still to come. -/
structure Covered (w : SocketWorld) : Prop where
  wf : w.db.WF
  /-- A push is about a stored version, and this device is not left out. -/
  stored : ∀ b ∈ w.pending ++ w.sent, b.accountId = me.account →
    ∀ gameId id seq, b.msg = .versionAvailable gameId id seq →
      b.except ≠ some me.device ∧ ∃ row ∈ w.db.versions, row.accountId = me.account ∧
        row.gameId = gameId ∧ row.id = id ∧ row.seq = seq
  registered : w.opened = true → w.hub.sender me.account me.device = some me.id
  started : w.opened = false → w.hello = .idle ∧ w.handled = []
  /-- Between query and enqueue, what ran is in the result or in the queue. -/
  replayed : ∀ lastSeq missed, w.hello = .queried lastSeq missed →
    ∀ gameId id seq, Announced me w.sent gameId id seq → (lastSeq gameId).getD 0 < seq →
      (gameId, id, seq) ∈ missed ∨ .versionAvailable gameId id seq ∈ w.queues me.id
  delivered : ∀ lastSeq ∈ w.handled,
    ∀ gameId id seq, Announced me w.sent gameId id seq → (lastSeq gameId).getD 0 < seq →
      .versionAvailable gameId id seq ∈ w.queues me.id

end SocketWorld

/-- One step of the socket, of an upload, or of another socket. -/
def SocketStep (me : Socket) : SocketWorld → SocketEvent → SocketWorld → Prop :=
  guarded (SocketWorld.Enabled me) (SocketWorld.next me)

section Steps

variable {me : Socket} {w w' w₀ : SocketWorld} {trace : List SocketEvent}

/-- A committed upload announces the version it stored, to all but its sender. -/
theorem SocketWorld.pushesOf_stored {db : Db} (wf : db.WF) {c : CreateCall} (fresh : c.Fresh db)
    {b : Broadcast} (hb : b ∈ pushesOf c (db.create c).2) {gameId : GameId} {id : VersionId}
    {seq : ℕ} (hmsg : b.msg = .versionAvailable gameId id seq) :
    b.accountId = c.account ∧ b.except = some c.req.deviceId ∧
      ∃ row ∈ (db.create c).1.versions, row.accountId = c.account ∧ row.gameId = gameId ∧
        row.id = id ∧ row.seq = seq := by
  rcases Db.createVersion_cases wf c.account c.gameId c.now fresh.1 with
    ⟨e, -, heq⟩ | ⟨game, -, -, -, -, heq⟩
  · simp [pushesOf, Db.create, heq] at hb
  · rw [Db.create, heq] at hb ⊢
    by_cases hp : db.head c.account c.gameId = c.req.parent
    · simp only [pushesOf, if_pos hp, Server.createBroadcasts, List.mem_singleton] at hb
      subst hb
      obtain ⟨rfl, rfl, rfl⟩ := ServerMsg.versionAvailable.inj hmsg
      exact ⟨rfl, rfl, db.newRow c.account c.gameId c.req c.id c.now, by simp [Db.created],
        rfl, rfl, rfl, rfl⟩
    · simp only [pushesOf, if_neg hp, Server.createBroadcasts, List.mem_singleton] at hb
      subst hb
      cases hmsg

namespace SocketWorld

/-- A version is announced by the latest push, or was before. -/
theorem Announced.cons {b : Broadcast} {bs : List Broadcast} {gameId : GameId} {id : VersionId}
    {seq : ℕ} (h : Announced me (b :: bs) gameId id seq) :
    b.accountId = me.account ∧ b.msg = .versionAvailable gameId id seq ∨
      Announced me bs gameId id seq := by
  obtain ⟨x, hx, hacc, hmsg⟩ := h
  rcases List.mem_cons.mp hx with rfl | hx
  · exact Or.inl ⟨hacc, hmsg⟩
  · exact Or.inr ⟨x, hx, hacc, hmsg⟩

/-- A step that changes only the registrations, and not this one. -/
theorem Covered.hub (h : w.Covered me) {hub : Hub}
    (same : hub.sender me.account me.device = w.hub.sender me.account me.device) :
    Covered me { w with hub } :=
  ⟨h.wf, h.stored, fun hopen => same.trans (h.registered hopen), h.started, h.replayed,
    h.delivered⟩

/-- The transaction of an upload. -/
theorem Covered.commit (h : w.Covered me) {c : CreateCall} (fresh : c.Fresh w.db)
    (other : c.account = me.account → c.req.deviceId ≠ me.device) :
    Covered me (w.next me (.commit c)) := by
  have step : TxStep w.db _ (w.db.create c).1 := TxStep.create c fresh
  refine ⟨step.wf h.wf, ?_, h.registered, h.started, h.replayed, h.delivered⟩
  intro b hb hacc gameId id seq hmsg
  have hcases : b ∈ w.pending ++ w.sent ∨ b ∈ pushesOf c (w.db.create c).2 := by
    simp only [next, List.mem_append] at hb ⊢
    tauto
  rcases hcases with hb | hb
  · obtain ⟨hexcept, row, hrow, hfields⟩ := h.stored b hb hacc gameId id seq hmsg
    exact ⟨hexcept, row, step.versions_subset h.wf row hrow, hfields⟩
  · obtain ⟨hacc', hexcept, row, hrow, hrowacc, hfields⟩ := pushesOf_stored h.wf fresh hb hmsg
    refine ⟨?_, row, hrow, hrowacc.trans (hacc'.symm.trans hacc), hfields⟩
    rw [hexcept]
    exact fun heq => other (hacc'.symm.trans hacc) (Option.some.inj heq)

/-- The push of an upload: an open socket is registered, so it gets it. -/
theorem Covered.push (h : w.Covered me) {b : Broadcast} (hb : b ∈ w.pending) :
    Covered me (w.next me (.push b)) := by
  have hgets : w.opened = true → b.accountId = me.account → ∀ gameId id seq,
      b.msg = .versionAvailable gameId id seq →
      .versionAvailable gameId id seq ∈ w.hub.broadcast b w.queues me.id := by
    intro hopen hacc gameId id seq hmsg
    obtain ⟨hexcept, -⟩ := h.stored b (List.mem_append_left _ hb) hacc gameId id seq hmsg
    have hreaches : b.reaches me.account me.device = true := by
      simp [Broadcast.reaches, hacc, hexcept]
    obtain ⟨more, hqueue⟩ := Hub.broadcast_of_sender (h.registered hopen) hreaches w.queues
    rw [hqueue, hmsg]
    simp
  refine ⟨h.wf, ?_, h.registered, h.started, ?_, ?_⟩
  · intro x hx
    refine h.stored x ?_
    rcases List.mem_append.mp hx with hx | hx
    · exact List.mem_append_left _ (List.mem_of_mem_erase hx)
    · rcases List.mem_cons.mp hx with rfl | hx
      · exact List.mem_append_left _ hb
      · exact List.mem_append_right _ hx
  -- a `Hello` that has begun, or is handled, came over the open socket
  · intro lastSeq missed hhello gameId id seq announced hlt
    rcases announced.cons with ⟨hacc, hmsg⟩ | announced
    · cases hopen : w.opened with
      | true => exact Or.inr (hgets hopen hacc gameId id seq hmsg)
      | false =>
          have hidle : w.hello = .idle := (h.started hopen).1
          rw [show w.hello = .queried lastSeq missed from hhello] at hidle
          cases hidle
    · have hold := h.replayed lastSeq missed hhello gameId id seq announced hlt
      exact hold.imp_right Hub.mem_broadcast
  · intro lastSeq hhandled gameId id seq announced hlt
    rcases announced.cons with ⟨hacc, hmsg⟩ | announced
    · cases hopen : w.opened with
      | true => exact hgets hopen hacc gameId id seq hmsg
      | false =>
          have hnone : lastSeq ∈ w.handled := hhandled
          rw [(h.started hopen).2] at hnone
          cases hnone
    · exact Hub.mem_broadcast (h.delivered lastSeq hhandled gameId id seq announced hlt)

/-- A step leaves nothing that is neither pushed nor replayed. -/
theorem Covered.step (h : w.Covered me) {ev : SocketEvent} (step : SocketStep me w ev w') :
    w'.Covered me := by
  obtain ⟨enabled, rfl⟩ := step
  cases ev with
  | opens =>
      obtain ⟨hidle, hhandled⟩ := h.started enabled
      refine ⟨h.wf, h.stored, fun _ => Hub.sender_register, fun hopen => ?_, h.replayed,
        h.delivered⟩
      cases hopen
  | helloRegister lastSeq =>
      refine ⟨h.wf, h.stored, fun _ => Hub.sender_register, fun hopen => ?_, ?_, h.delivered⟩
      · exact absurd (enabled.1.symm.trans hopen) (by simp)
      · intro lastSeq' missed hhello
        cases hhello
  | helloQuery =>
      obtain ⟨lastSeq, hhello⟩ := enabled
      simp only [next, hhello]
      refine ⟨h.wf, h.stored, h.registered, fun hopen => ?_, ?_, h.delivered⟩
      · rw [(h.started hopen).1] at hhello
        cases hhello
      · -- what was pushed was committed before, so the query finds it
        intro lastSeq' missed heq gameId id seq announced hlt
        obtain ⟨rfl, rfl⟩ := HelloPhase.queried.inj heq
        obtain ⟨b, hb, hacc, hmsg⟩ := announced
        obtain ⟨-, row, hrow, hfields⟩ :=
          h.stored b (List.mem_append_right _ hb) hacc gameId id seq hmsg
        exact Or.inl (Db.mem_versionsSince.mpr ⟨hlt, row, hrow, hfields⟩)
  | helloEnqueue =>
      obtain ⟨lastSeq, missed, hhello⟩ := enabled
      simp only [next, hhello]
      have hqueue : Function.update w.queues me.id (w.queues me.id ++ replayMsgs missed) me.id =
          w.queues me.id ++ replayMsgs missed := Function.update_self ..
      refine ⟨h.wf, h.stored, h.registered, fun hopen => ?_, (fun _ _ heq => by cases heq), ?_⟩
      · rw [(h.started hopen).1] at hhello
        cases hhello
      · intro lastSeq' hhandled gameId id seq announced hlt
        change _ ∈ Function.update w.queues me.id (w.queues me.id ++ replayMsgs missed) me.id
        rw [hqueue]
        rcases List.mem_cons.mp hhandled with rfl | hhandled
        · rcases h.replayed _ missed hhello gameId id seq announced hlt with hmissed | hlive
          · exact List.mem_append_right _ (mem_replayMsgs.mpr hmissed)
          · exact List.mem_append_left _ hlive
        · exact List.mem_append_left _
            (h.delivered lastSeq' hhandled gameId id seq announced hlt)
  | commit c => exact h.commit enabled.1 enabled.2
  | push b => exact h.push enabled
  | otherRegister s => exact h.hub (Hub.sender_register_of_ne (Ne.symm enabled))
  | otherDeregister s => exact h.hub (Hub.sender_deregister_of_ne (Ne.symm enabled))

theorem New.covered (new : w.New) : w.Covered me := by
  refine ⟨new.wf, ?_, ?_, fun _ => ⟨new.hello, new.handled⟩, ?_, ?_⟩
  · simp [new.pending, new.sent]
  · simp [new.opened]
  · simp [new.hello]
  · simp [new.handled]

end SocketWorld

/-- **No push is lost between replay and live delivery.**  From any database, also one that
holds versions of this device, and for every interleaving of the steps of one socket, the only
one of its device, with commits of uploads by other devices and their pushes: once a `Hello` has
been handled and the push of a fast-forwarded version has run, its `VersionAvailable` has been
enqueued to the socket if its `seq` exceeds what the `Hello` reported for the game. -/
theorem no_push_lost (new : w₀.New) (run : Run (SocketStep me) w₀ trace w)
    {lastSeq : LastSeq} (handled : lastSeq ∈ w.handled) {b : Broadcast} (ran : b ∈ w.sent)
    (account : b.accountId = me.account) {gameId : GameId} {id : VersionId} {seq : ℕ}
    (msg : b.msg = .versionAvailable gameId id seq) (above : (lastSeq gameId).getD 0 < seq) :
    .versionAvailable gameId id seq ∈ w.queues me.id := by
  have covered : w.Covered me :=
    run.invariant (I := SocketWorld.Covered me) (fun _ _ _ h step => h.step step) new.covered
  exact covered.delivered lastSeq handled gameId id seq ⟨b, ran, account, msg⟩ above

end Steps

/-- Device 22 connects after a backup of its own. -/
def socketOf22 : Socket := ⟨1, 1, 22⟩

/-- The database of two devices, with the version of device 22 as the head. -/
def dbOf22 : Db := (twoDeviceDb.create (firstBackup 22 101)).1

theorem dbOf22_wf : dbOf22.WF := by
  have fresh : twoDeviceDb.Fresh :=
    ⟨by decide, by decide, by decide, by decide, rfl, by decide, by decide⟩
  exact (TxStep.create (firstBackup 22 101) ⟨by decide, by decide⟩).wf fresh.wf

/-- The socket is closed, and the other device has uploaded a version, which the `Hello` has
to replay. -/
def socketWorldOf22 : SocketWorld where
  db := dbOf22
  hub := Hub.new
  queues := fun _ => []
  opened := false
  hello := .idle
  handled := []
  pending := []
  sent := []

/-- Device 21 has pulled that version and backs up on it. -/
def backupOf21 : CreateCall :=
  let call := firstBackup 21 102
  { call with req := { call.req with parent := some 101 } }

/-- What device 22 knows: its own version. -/
def knownTo22 : LastSeq := fun gameId => if gameId = 10 then some 1 else none

/-- Device 21 commits between the query and its result; the push runs at the end. -/
def commitBehindQuery : List SocketEvent :=
  [.opens, .helloRegister knownTo22, .helloQuery, .commit backupOf21, .helloEnqueue,
   .push { accountId := 1, except := some 21, msg := .versionAvailable 10 102 2 }]

/-- The replay comes too early, the push does not. -/
theorem commit_behind_query_delivered :
    .versionAvailable 10 102 2 ∈
      (commitBehindQuery.foldl (SocketWorld.next socketOf22) socketWorldOf22).queues 1 := by
  have new : socketWorldOf22.New := ⟨dbOf22_wf, rfl, rfl, rfl, rfl, rfl⟩
  have run : Run (SocketStep socketOf22) socketWorldOf22 commitBehindQuery
      (commitBehindQuery.foldl (SocketWorld.next socketOf22) socketWorldOf22) := by
    refine Run.of_enabled ⟨rfl, ⟨rfl, rfl⟩, ⟨_, rfl⟩, ⟨⟨by decide, by decide⟩, by decide⟩,
      ⟨_, _, rfl⟩, List.mem_singleton.mpr rfl, trivial⟩
  exact no_push_lost new run (List.mem_singleton.mpr rfl) (List.mem_singleton.mpr rfl) rfl rfl
    (by decide)

end Savr
