import Savr.Server.ApiSpec
import Savr.Server.Lineage
import Savr.Server.Replay

/-!
# What a reconnecting device learns

A device that was offline reports the largest `seq` it was ever sent, and the server
replays what lies above.  That covers heads that moved by an upload, whose number is
new.  A resolution moves the head to a version that exists already, and a retention run
that prunes the newest version lets its number be given again; both can put the head at
or below what the device reports.

`reconnect_learns_head` excludes these two, and nothing else.
-/

namespace Savr

open LabelledRun RankedList

/-- What a device was told about a game. -/
structure Told where
  /-- The last version it was sent that was the head at that moment. -/
  lastHead : Option VersionId
  /-- The largest `seq` it was ever sent. -/
  maxSeq : ℕ
  deriving DecidableEq, Repr

/-- The server, and one device of it. -/
structure NotifyWorld where
  server : Server
  online : Bool
  told : GameId → Told

/-- What happens next: a request to the server, or to the connection of the device. A request
runs as a whole, with the pushes it makes. -/
inductive NotifyEvent
  | create (c : CreateCall)
  | resolve (auth : Authed) (gameId : GameId) (winner : VersionId) (keepBoth : Bool) (id : Uuid)
      (now : Timestamp)
  /-- `blob_put`; what the object holds decides nothing here. -/
  | recordBlob (hash : Blake3Hash) (bytes : ℕ) (now : Timestamp)
  | config (rows : List ConfigRow)
  | gc
  /-- The device connects and sends its `Hello`. -/
  | connect
  | disconnect

namespace NotifyWorld

/-- What the device reports in a `Hello`. -/
def lastSeq (w : NotifyWorld) : LastSeq :=
  fun gameId => some (w.told gameId).maxSeq

/-- The device is sent a message. -/
def hear (db : Db) (account : AccountId) (told : GameId → Told) : ServerMsg → GameId → Told
  | .versionAvailable gameId id seq =>
      Function.update told gameId
        { lastHead := if db.head account gameId = some id then some id
            else (told gameId).lastHead
          maxSeq := max (told gameId).maxSeq seq }
  | .conflict _ _ | .configUpdated _ | .deviceAdded _ => told

variable (me : Authed)

/-- What the pushes of a request tell the device, if it is online. -/
def hearPushes (w : NotifyWorld) (s : Server) (pushes : List Broadcast) : GameId → Told :=
  if w.online then
    ((pushes.filter fun b => b.reaches me.accountId me.deviceId).map Broadcast.msg).foldl
      (hear s.db me.accountId) w.told
  else w.told

/-- New ids are fresh, and the device connects and disconnects in turn. -/
def Enabled (w : NotifyWorld) : NotifyEvent → Prop
  | .create c => c.Fresh w.server.db
  | .connect => w.online = false
  | .disconnect => w.online = true
  | _ => True

/-- The state after an event; a device that is connected hears what is pushed to it, and one
that connects is sent what it has missed. -/
def next (w : NotifyWorld) : NotifyEvent → NotifyWorld
  | .create c =>
      let s := { w.server with db := (w.server.db.create c).1 }
      { w with
        server := s
        told := w.hearPushes me s (SocketWorld.pushesOf c (w.server.db.create c).2) }
  | .resolve auth gameId winner keepBoth id now =>
      let (s, _, pushes) := w.server.resolve auth gameId winner keepBoth id now
      { w with server := s, told := w.hearPushes me s pushes }
  | .recordBlob hash bytes now =>
      { w with server := { w.server with db := w.server.db.recordBlob hash bytes now } }
  | .config rows => { w with server := { w.server with db := { w.server.db with config := rows } } }
  | .gc => { w with server := w.server.runGc.1 }
  | .connect =>
      { w with
        online := true
        told := (SocketWorld.replayMsgs (w.server.db.versionsSince me.accountId w.lastSeq)).foldl
          (hear w.server.db me.accountId) w.told }
  | .disconnect => { w with online := false }

/-- Before the first upload, with a device that was told nothing. -/
structure New (w : NotifyWorld) : Prop where
  fresh : w.server.db.Fresh
  told : ∀ gameId, w.told gameId = ⟨none, 0⟩

/-- A resolution the device is not told of names the head it was told last, or a version
newer than all it was sent; a retention run keeps a version of the game that is at least
as new. -/
def Ahead (gameId : GameId) (w : NotifyWorld) : NotifyEvent → Prop
  | .resolve auth game winner _ _ _ =>
      auth.accountId = me.accountId → game = gameId →
        (w.online = true ∧ auth.deviceId ≠ me.deviceId) ∨
        ∀ h, (w.told gameId).lastHead = some h →
          winner = h ∨ ∀ v ∈ w.server.db.gameRows me.accountId gameId, v.id = winner →
            (w.told gameId).maxSeq < v.seq
  | .gc =>
      (w.told gameId).maxSeq = 0 ∨
        ∃ v ∈ w.server.db.versions, v.gameId = gameId ∧ (w.told gameId).maxSeq ≤ v.seq ∧
          w.server.db.Kept v.accountId v.gameId (w.server.db.configRetention v.accountId)
            (Db.gcVersion v)
  | _ => True

/-- The device knows the head, or the head is above all it was sent. -/
structure Knows (gameId : GameId) (w : NotifyWorld) : Prop where
  wf : w.server.db.WF
  seq : (w.told gameId).maxSeq < w.server.db.nextSeq gameId
  head : ∀ h, (w.told gameId).lastHead = some h →
    w.server.db.head me.accountId gameId = some h ∨
      ∃ v ∈ w.server.db.gameRows me.accountId gameId,
        w.server.db.head me.accountId gameId = some v.id ∧ (w.told gameId).maxSeq < v.seq

end NotifyWorld

/-- One request to the server, or a change of the device's connection. -/
def NotifyStep (me : Authed) : NotifyWorld → NotifyEvent → NotifyWorld → Prop :=
  guarded NotifyWorld.Enabled (NotifyWorld.next me)

namespace NotifyWorld

section Hearing

variable {db : Db} {account : AccountId} {told : GameId → Told} {gameId : GameId}
  {msgs : List ServerMsg}

/-- After some messages the last head told is the head, or it is what it was and none of
the messages was about the head. -/
theorem foldl_hear_lastHead {h : VersionId}
    (hlast : (msgs.foldl (hear db account) told gameId).lastHead = some h) :
    db.head account gameId = some h ∨ (told gameId).lastHead = some h ∧
      ∀ id seq, .versionAvailable gameId id seq ∈ msgs → db.head account gameId ≠ some id := by
  induction msgs generalizing told with
  | nil => exact Or.inr ⟨hlast, by simp⟩
  | cons msg msgs ih =>
      rcases ih hlast with hhead | ⟨hlast, hnone⟩
      · exact Or.inl hhead
      · cases msg with
        | conflict _ _ | configUpdated _ | deviceAdded _ =>
            refine Or.inr ⟨hlast, fun id seq hmem => hnone id seq ?_⟩
            simpa using hmem
        | versionAvailable game id seq =>
            by_cases hgame : gameId = game
            · subst hgame
              by_cases hid : db.head account gameId = some id
              · refine Or.inl ?_
                simpa [hear, hid] using hlast
              · refine Or.inr ⟨by simpa [hear, hid] using hlast, fun id' seq' hmem => ?_⟩
                rcases List.mem_cons.mp hmem with heq | hmem
                · obtain ⟨-, rfl, -⟩ := ServerMsg.versionAvailable.inj heq
                  exact hid
                · exact hnone id' seq' hmem
            · refine Or.inr ⟨by simpa [hear, hgame] using hlast, fun id' seq' hmem => ?_⟩
              rcases List.mem_cons.mp hmem with heq | hmem
              · exact absurd (ServerMsg.versionAvailable.inj heq).1 hgame
              · exact hnone id' seq' hmem

/-- What a device has heard stays below the next number. -/
theorem foldl_hear_maxSeq {n : ℕ} (hold : (told gameId).maxSeq < n)
    (hmsgs : ∀ id seq, .versionAvailable gameId id seq ∈ msgs → seq < n) :
    (msgs.foldl (hear db account) told gameId).maxSeq < n := by
  induction msgs generalizing told with
  | nil => exact hold
  | cons msg msgs ih =>
      refine ih ?_ fun id seq hmem => hmsgs id seq (List.mem_cons_of_mem _ hmem)
      cases msg with
      | conflict _ _ | configUpdated _ | deviceAdded _ => exact hold
      | versionAvailable game id seq =>
          by_cases hgame : gameId = game
          · subst hgame
            simpa [hear] using ⟨hold, hmsgs id seq (by simp)⟩
          · simpa [hear, hgame] using hold

/-- Messages about other games tell nothing about this one. -/
theorem foldl_hear_of_silent (silent : ∀ id seq, .versionAvailable gameId id seq ∉ msgs) :
    msgs.foldl (hear db account) told gameId = told gameId := by
  induction msgs generalizing told with
  | nil => rfl
  | cons msg msgs ih =>
      rw [List.foldl_cons, ih fun id seq hmem => silent id seq (List.mem_cons_of_mem _ hmem)]
      cases msg with
      | conflict _ _ | configUpdated _ | deviceAdded _ => rfl
      | versionAvailable game id seq =>
          have hgame : gameId ≠ game := by
            rintro rfl
            exact silent id seq (by simp)
          simp [hear, hgame]

end Hearing

section Steps

variable {me : Authed} {gameId : GameId} {w w' w₀ : NotifyWorld} {trace : List NotifyEvent}
  {s : Server}

/-- A request whose pushes say nothing of the game. -/
theorem hearPushes_of_silent {pushes : List Broadcast}
    (silent : ∀ b ∈ pushes, b.reaches me.accountId me.deviceId = true →
      ∀ id seq, b.msg ≠ .versionAvailable gameId id seq) :
    w.hearPushes me s pushes gameId = w.told gameId := by
  unfold hearPushes
  split
  · refine foldl_hear_of_silent fun id seq hmem => ?_
    obtain ⟨b, hb, hmsg⟩ := List.mem_map.mp hmem
    obtain ⟨hb, hreaches⟩ := List.mem_filter.mp hb
    exact silent b hb hreaches id seq hmsg
  · rfl

/-- A push of this game that reaches the device. -/
theorem hearPushes_of_heard {sender : DeviceId} {id : VersionId} {seq : ℕ}
    (online : w.online = true) (other : sender ≠ me.deviceId)
    (head : s.db.head me.accountId gameId = some id) :
    w.hearPushes me s [⟨me.accountId, some sender, .versionAvailable gameId id seq⟩] gameId =
      { lastHead := some id, maxSeq := max (w.told gameId).maxSeq seq } := by
  simp [hearPushes, online, Broadcast.reaches, other, hear, head]

/-- A push that does not reach the device. -/
theorem hearPushes_of_unheard {b : Broadcast}
    (unheard : w.online = false ∨ b.reaches me.accountId me.deviceId = false) :
    w.hearPushes me s [b] gameId = w.told gameId := by
  rcases unheard with hoff | hreaches
  · simp [hearPushes, hoff]
  · exact hearPushes_of_silent fun b' hb' hr => by
      rw [List.mem_singleton.mp hb', hreaches] at hr
      cases hr

/-- Versions are added, and the device is told nothing of the game, whose head stays. -/
theorem Knows.same_head (h : w.Knows me gameId) (wf : w'.server.db.WF)
    (hsub : ∀ v ∈ w.server.db.versions, v ∈ w'.server.db.versions)
    (hhead : w'.server.db.head me.accountId gameId = w.server.db.head me.accountId gameId)
    (htold : w'.told gameId = w.told gameId) : w'.Knows me gameId := by
  refine ⟨wf, ?_, ?_⟩
  · rw [htold]
    exact Db.nextSeq_mono hsub h.seq
  · rw [htold, hhead]
    intro last hlast
    refine (h.head last hlast).imp_right ?_
    rintro ⟨v, hv, hid, hlt⟩
    obtain ⟨hv, hfields⟩ := Db.mem_gameRows.mp hv
    exact ⟨v, Db.mem_gameRows.mpr ⟨hsub v hv, hfields⟩, hid, hlt⟩

/-- The head moves to a stored version, and the device is told of it or the version is
above all it was sent. -/
theorem Knows.moved (h : w.Knows me gameId) (wf : w'.server.db.WF)
    (hsub : ∀ v ∈ w.server.db.versions, v ∈ w'.server.db.versions) {row : VersionRow}
    (hrow : row ∈ w'.server.db.gameRows me.accountId gameId)
    (hhead : w'.server.db.head me.accountId gameId = some row.id)
    (htold : w'.told gameId = ⟨some row.id, max (w.told gameId).maxSeq row.seq⟩ ∨
      w'.told gameId = w.told gameId ∧ ∀ h, (w.told gameId).lastHead = some h →
        row.id = h ∨ (w.told gameId).maxSeq < row.seq) :
    w'.Knows me gameId := by
  have hold := Db.nextSeq_mono hsub h.seq
  rcases htold with htold | ⟨htold, hahead⟩
  · refine ⟨wf, ?_, ?_⟩
    · rw [htold]
      obtain ⟨hmem, hgame, -⟩ := Db.mem_gameRows.mp hrow
      exact max_lt hold (hgame ▸ Db.seq_lt_nextSeq hmem)
    · rw [htold]
      rintro last hlast
      exact Or.inl (hhead.trans hlast)
  · refine ⟨wf, by rw [htold]; exact hold, ?_⟩
    rw [htold]
    intro last hlast
    rcases hahead last hlast with rfl | hlt
    · exact Or.inl hhead
    · exact Or.inr ⟨row, hrow, hhead, hlt⟩

/-- A push either reaches the device or not. -/
theorem heard_or_unheard (w : NotifyWorld) (me : Authed) (sender : DeviceId) :
    (w.online = true ∧ sender ≠ me.deviceId) ∨ w.online = false ∨ sender = me.deviceId := by
  cases w.online <;> tauto

/-- What an upload or a resolution that moves the head of the game tells the device. -/
theorem hearPushes_moved {sender : DeviceId} (row : VersionRow)
    (hhead : s.db.head me.accountId gameId = some row.id)
    (hahead : (w.online = true ∧ sender ≠ me.deviceId) ∨
      ∀ h, (w.told gameId).lastHead = some h → row.id = h ∨ (w.told gameId).maxSeq < row.seq) :
    w.hearPushes me s [⟨me.accountId, some sender, .versionAvailable gameId row.id row.seq⟩]
        gameId = ⟨some row.id, max (w.told gameId).maxSeq row.seq⟩ ∨
      w.hearPushes me s [⟨me.accountId, some sender, .versionAvailable gameId row.id row.seq⟩]
        gameId = w.told gameId ∧ ∀ h, (w.told gameId).lastHead = some h →
          row.id = h ∨ (w.told gameId).maxSeq < row.seq := by
  rcases heard_or_unheard w me sender with ⟨online, other⟩ | unheard
  · exact Or.inl (hearPushes_of_heard online other hhead)
  · refine Or.inr ⟨hearPushes_of_unheard (unheard.imp_right ?_), hahead.resolve_left ?_⟩
    · rintro rfl
      simp [Broadcast.reaches]
    · rintro ⟨online, other⟩
      rcases unheard with hoff | hself
      · simp [online] at hoff
      · exact other hself

/-- An upload. -/
theorem Knows.create (h : w.Knows me gameId) {c : CreateCall} (fresh : c.Fresh w.server.db) :
    (w.next me (.create c)).Knows me gameId := by
  have step : TxStep w.server.db _ (w.server.db.create c).1 := TxStep.create c fresh
  have wf := step.wf h.wf
  have hsub := step.versions_subset h.wf
  rcases Db.createVersion_cases h.wf c.account c.gameId c.now fresh.1 with
    ⟨e, -, heq⟩ | ⟨game, hgame, -, -, -, heq⟩
  · refine h.same_head wf hsub ?_ (hearPushes_of_silent ?_)
    · simp [next, Db.create, heq]
    · simp [SocketWorld.pushesOf, Db.create, heq]
  · have hdb : (w.server.db.create c).1 =
        w.server.db.created c.account c.gameId c.req c.id c.now := by rw [Db.create, heq]
    by_cases hff : w.server.db.head c.account c.gameId = c.req.parent
    · have hpushes : SocketWorld.pushesOf c (w.server.db.create c).2 =
          [⟨c.account, some c.req.deviceId, .versionAvailable c.gameId c.id
            (w.server.db.nextSeq c.gameId)⟩] := by
        rw [Db.create, heq, if_pos hff]
        rfl
      by_cases hsame : (me.accountId, gameId) = (c.account, c.gameId)
      · -- the game itself: its number is above everything the device was sent
        obtain ⟨hacc, rfl⟩ := Prod.mk.inj hsame
        have hhead : (w.server.db.create c).1.head me.accountId c.gameId = some c.id := by
          rw [hdb, hacc, Db.head_created hgame, if_pos hff]
        have hrow : w.server.db.newRow c.account c.gameId c.req c.id c.now ∈
            (w.server.db.create c).1.gameRows me.accountId c.gameId := by
          refine Db.mem_gameRows.mpr ⟨?_, rfl, hacc.symm⟩
          simp [hdb, Db.created]
        refine h.moved wf hsub hrow hhead ?_
        simp only [next, hpushes]
        rw [← hacc]
        exact hearPushes_moved (s := ⟨(w.server.db.create c).1, w.server.objects⟩)
          (w.server.db.newRow c.account c.gameId c.req c.id c.now) hhead
          (Or.inr fun _ _ => Or.inr h.seq)
      · refine h.same_head wf hsub ?_ (hearPushes_of_silent ?_)
        · simp only [next, hdb]
          exact Db.head_created_of_ne w.server.db hsame c.req c.id c.now
        · rw [hpushes]
          intro b hb hreaches id seq hmsg
          obtain rfl := List.mem_singleton.mp hb
          obtain ⟨rfl, -, -⟩ := ServerMsg.versionAvailable.inj hmsg
          have hacc : c.account = me.accountId := by
            simp [Broadcast.reaches] at hreaches
            exact hreaches.1
          exact hsame (by rw [hacc])
    · refine h.same_head wf hsub ?_ (hearPushes_of_silent ?_)
      · simp only [next, hdb]
        by_cases hsame : (me.accountId, gameId) = (c.account, c.gameId)
        · obtain ⟨hacc, rfl⟩ := Prod.mk.inj hsame
          rw [hacc, Db.head_created hgame, if_neg hff]
        · exact Db.head_created_of_ne w.server.db hsame c.req c.id c.now
      · rw [Db.create, heq, if_neg hff]
        intro b hb _ id seq hmsg
        obtain rfl := List.mem_singleton.mp hb
        cases hmsg

/-- A resolution. -/
theorem Knows.resolve (h : w.Knows me gameId) {auth : Authed} {game : GameId}
    {winner : VersionId} {keepBoth : Bool} {id : Uuid} {now : Timestamp}
    (ahead : w.Ahead me gameId (.resolve auth game winner keepBoth id now)) :
    (w.next me (.resolve auth game winner keepBoth id now)).Knows me gameId := by
  rcases Server.resolve_cases h.wf auth game winner keepBoth id now with
    ⟨e, heq⟩ | ⟨row, v, hv, hgame, rfl, heq⟩
  · refine h.same_head ?_ ?_ ?_ ?_
    · simpa [next, heq] using h.wf
    · simp [next, heq]
    · simp [next, heq]
    · simp only [next, heq]
      exact hearPushes_of_silent (by simp)
  · have wf : (w.server.db.resolved auth.accountId game v.id keepBoth id now row.head).WF :=
      h.wf.resolved hv row.head
    by_cases hsame : (me.accountId, gameId) = (auth.accountId, game)
    · obtain ⟨hacc, rfl⟩ := Prod.mk.inj hsame
      have hhead : (w.server.db.resolved auth.accountId gameId v.id keepBoth id now
          row.head).head auth.accountId gameId = some v.id := Db.head_resolved hgame
      rw [← hacc] at hv hhead
      have hrow : v ∈ (w.next me (.resolve auth gameId v.id keepBoth id now)).server.db.gameRows
          me.accountId gameId := by
        simp only [next, heq]
        exact Db.mem_gameRows.mpr (Db.mem_gameRows.mp hv)
      refine h.moved ?_ ?_ hrow ?_ ?_
      · simpa [next, heq] using wf
      · simp [next, heq, Db.resolved]
      · simpa [next, heq, hacc] using hhead
      · simp only [next, heq]
        rw [← hacc]
        refine hearPushes_moved v hhead ?_
        exact (ahead hacc.symm rfl).imp_right fun hor last hlast =>
          (hor last hlast).imp_right fun hall => hall v hv rfl
    · refine h.same_head ?_ ?_ ?_ ?_
      · simpa [next, heq] using wf
      · simp [next, heq, Db.resolved]
      · simp only [next, heq]
        exact Db.head_resolved_of_ne w.server.db hsame
      · simp only [next, heq]
        refine hearPushes_of_silent fun b hb hreaches id' seq hmsg => ?_
        obtain rfl := List.mem_singleton.mp hb
        obtain ⟨rfl, -, -⟩ := ServerMsg.versionAvailable.inj hmsg
        have hacc : auth.accountId = me.accountId := by
          simp [Broadcast.reaches] at hreaches
          exact hreaches.1
        exact hsame (by rw [hacc])

/-- A retention run that keeps what carries the next number. -/
theorem Knows.gc (h : w.Knows me gameId) (ahead : w.Ahead me gameId .gc) :
    (w.next me .gc).Knows me gameId := by
  obtain ⟨s', stats, dead, hrun, hpruned, -⟩ := Server.runGc_spec h.wf
  have wf : w.server.runGc.1.db.WF := by
    rw [hrun]
    exact hpruned.wf
  refine ⟨wf, ?_, ?_⟩
  · rcases ahead with hzero | ⟨v, hv, hg, hle, hkept⟩
    · exact Db.lt_nextSeq_iff.mpr (Or.inl hzero)
    · obtain ⟨v', hv', hg', hseq', -⟩ := Server.survives_runGc h.wf hv hkept
      exact Db.lt_nextSeq_iff.mpr (Or.inr ⟨v', hv', hg'.trans hg, hseq' ▸ hle⟩)
  · intro last hlast
    have hhead := Server.head_runGc h.wf me.accountId gameId
    refine (h.head last hlast).imp hhead.trans ?_
    rintro ⟨v, hv, hid, hlt⟩
    obtain ⟨v', hv', hid', -⟩ := wf.exists_headVersion (hhead.trans hid)
    obtain ⟨u, hu, huid, -, -, hseq⟩ := Server.of_mem_runGc h.wf (Db.mem_gameRows.mp hv').1
    have huv : u = v :=
      List.inj_on_of_nodup_map h.wf.versionIds hu (Db.mem_gameRows.mp hv).1 (huid.symm.trans hid')
    refine ⟨v', hv', ?_, ?_⟩
    · rw [hid']
      exact hhead.trans hid
    · rw [hseq, huv]
      exact hlt

/-- The device connects: it is sent the head, or knows it. -/
theorem Knows.connect (h : w.Knows me gameId) : (w.next me .connect).Knows me gameId := by
  refine ⟨h.wf, ?_, ?_⟩
  · refine foldl_hear_maxSeq h.seq fun id seq hmem => ?_
    obtain ⟨-, row, hrow, -, rfl, -, rfl⟩ :=
      Db.mem_versionsSince.mp (SocketWorld.mem_replayMsgs.mp hmem)
    exact Db.seq_lt_nextSeq hrow
  · intro last hlast
    rcases foldl_hear_lastHead hlast with hhead | ⟨hlast, hnone⟩
    · exact Or.inl hhead
    · refine Or.inl ((h.head last hlast).resolve_right ?_)
      rintro ⟨v, hv, hid, hlt⟩
      obtain ⟨hv, hg, ha⟩ := Db.mem_gameRows.mp hv
      refine hnone v.id v.seq (SocketWorld.mem_replayMsgs.mpr ?_) hid
      exact Db.mem_versionsSince.mpr ⟨by simpa [lastSeq] using hlt, v, hv, ha, hg, rfl, rfl⟩

/-- **One step keeps the knowledge.** -/
theorem Knows.step {event : NotifyEvent} (h : w.Knows me gameId)
    (step : under (NotifyStep me) (NotifyWorld.Ahead me gameId) w event w') :
    w'.Knows me gameId := by
  obtain ⟨⟨enabled, rfl⟩, ahead⟩ := step
  cases event with
  | create c => exact h.create enabled
  | resolve auth game winner keepBoth id now => exact h.resolve ahead
  | recordBlob hash bytes now =>
      have hversions : (w.server.db.recordBlob hash bytes now).versions = w.server.db.versions :=
        (Db.recordBlob_frame hash bytes).2.1
      exact h.same_head (h.wf.recordBlob hash bytes) (fun v hv => hversions.symm ▸ hv)
        (Db.head_recordBlob hash bytes) rfl
  | config rows => exact ⟨(ServerStep.config rows).wf h.wf, h.seq, h.head⟩
  | gc => exact h.gc ahead
  | connect => exact h.connect
  | disconnect => exact ⟨h.wf, h.seq, h.head⟩

theorem New.knows (new : w.New) : w.Knows me gameId := by
  refine ⟨new.fresh.wf, ?_, ?_⟩
  · rw [new.told]
    exact Nat.succ_pos _
  · intro last hlast
    rw [new.told] at hlast
    cases hlast

end Steps

end NotifyWorld

/-- **A reconnecting device learns where the head is.**  In every run of uploads,
resolutions, retention runs and changes of the device's connection in which no resolution
goes back behind its back and no retention run lets a number be given again: if the head
is not the one the device was told last, the replay for what it reports has it. -/
theorem reconnect_learns_head {me : Authed} {gameId : GameId} {w w₀ : NotifyWorld}
    {trace : List NotifyEvent} (new : w₀.New)
    (run : Run (under (NotifyStep me) (NotifyWorld.Ahead me gameId)) w₀ trace w)
    {last head : VersionId} (told : (w.told gameId).lastHead = some last)
    (current : w.server.db.head me.accountId gameId = some head) (moved : head ≠ last) :
    ∃ seq, (gameId, head, seq) ∈ w.server.db.versionsSince me.accountId w.lastSeq := by
  have knows : w.Knows me gameId :=
    run.invariant (I := NotifyWorld.Knows me gameId) (fun _ _ _ h step => h.step step) new.knows
  rcases knows.head last told with hhead | ⟨v, hv, hid, hlt⟩
  · rw [current] at hhead
    exact absurd (Option.some.inj hhead) moved
  · rw [current] at hid
    obtain rfl := Option.some.inj hid
    obtain ⟨hv, hg, ha⟩ := Db.mem_gameRows.mp hv
    exact ⟨v.seq, Db.mem_versionsSince.mpr ⟨by simpa [NotifyWorld.lastSeq] using hlt, v, hv, ha,
      hg, rfl, rfl⟩⟩

/-! ### Going back behind a device's back -/

/-- Three devices of one account; number 22 is the one that goes offline while the other two
upload. -/
def threeDeviceWorld : NotifyWorld where
  server :=
    { db :=
        { twoDeviceDb with
          devices := twoDeviceDb.devices ++ [⟨23, 1, "pc23", .linux, "", none, false⟩] }
      objects := fun _ => none }
  online := false
  told := fun _ => ⟨none, 0⟩

/-- The device of the example. -/
def device22 : Authed := ⟨1, 22⟩

theorem threeDeviceWorld_new : threeDeviceWorld.New :=
  ⟨⟨by decide, by decide, by decide, by decide, rfl, by decide, by decide⟩, fun _ => rfl⟩

/-- Device 21 backs up on top of its first backup. -/
def secondBackup : CreateCall :=
  { firstBackup 21 103 with
    req := { (firstBackup 21 103).req with parent := some 101 }
    now := 1 }

/-- Device 22 is told of the first backup and goes offline; device 23 branches off, its
branch wins, and device 22 comes back. -/
def branchWinsOffline : List NotifyEvent :=
  [.connect, .create (firstBackup 21 101), .disconnect, .create (firstBackup 23 102),
   .resolve ⟨1, 23⟩ 10 102 true 900 2]

/-- The branch was pushed after what device 22 was sent, so the replay has it. -/
theorem winning_branch_replayed :
    ∃ seq, (10, 102, seq) ∈
      (branchWinsOffline.foldl (NotifyWorld.next device22) threeDeviceWorld).server.db.versionsSince
        1 (branchWinsOffline.foldl (NotifyWorld.next device22) threeDeviceWorld).lastSeq := by
  have run : Run (under (NotifyStep device22) (NotifyWorld.Ahead device22 10)) threeDeviceWorld
      branchWinsOffline (branchWinsOffline.foldl (NotifyWorld.next device22) threeDeviceWorld) := by
    refine Run.under_of_enabled (Run.of_enabled ⟨⟨rfl, trivial⟩,
      ⟨⟨by decide, by decide⟩, trivial⟩, ⟨rfl, trivial⟩, ⟨⟨by decide, by decide⟩, trivial⟩,
      ⟨trivial, ?_⟩, trivial⟩)
    exact fun _ _ => Or.inr fun _ _ => Or.inr (by decide)
  have told : ((branchWinsOffline.foldl (NotifyWorld.next device22) threeDeviceWorld).told
      10).lastHead = some 101 := by decide
  exact reconnect_learns_head threeDeviceWorld_new run told (by decide) (by decide)

/-- Device 23 branches off before device 21 backs up again.  Device 22 is told of both
backups of device 21 and goes offline; then the branch, the older version, wins. -/
def olderBranchWinsOffline : List NotifyEvent :=
  [.connect, .create (firstBackup 21 101), .create (firstBackup 23 102), .create secondBackup,
   .disconnect, .resolve ⟨1, 23⟩ 10 102 true 900 2]

/-- Device 22 was told that version 103 is the head.  The head is 102 now, and the replay
is empty. -/
theorem older_winner_not_replayed :
    threeDeviceWorld.New ∧
      ∃ w, Run (NotifyStep device22) threeDeviceWorld olderBranchWinsOffline w ∧
        w.online = false ∧ (w.told 10).lastHead = some 103 ∧
        w.server.db.head 1 10 = some 102 ∧ w.server.db.versionsSince 1 w.lastSeq = [] := by
  refine ⟨threeDeviceWorld_new, _, Run.of_enabled ⟨rfl, ⟨by decide, by decide⟩,
    ⟨by decide, by decide⟩, ⟨by decide, by decide⟩, rfl, trivial, trivial⟩, ?_⟩
  decide

end Savr
