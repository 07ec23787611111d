import Savr.System.OneGame

/-!
# One device alone on a game

A device that is the only writer of a game should never meet a conflict: "someone
else advanced it" is what a conflict means.  Every backup declares the version the
device saw last as its parent.  That version is the head as long as no earlier
backup is still on its way; a backup taken over a pending one declares the same
parent, and whichever comes second conflicts.  A reply that is lost after the
server committed leaves the stored version pending again.

`InOrder` is the state without either: the versions on the server and the pending
entry are the backups taken so far, in their order, and everything points at the
head.

## Main results

* `uploadVersion_inOrder` — an upload whose parent is the head, and whose reply is
  not lost, fast-forwards or changes nothing.
* `single_writer_in_order` — in every run in which the only writer backs up over
  an empty queue, no upload conflicts and the history is the list of its backups.
-/

namespace Savr

open LabelledRun

section General

variable [Blake3]

section Game

variable {account : AccountId} {gameId : GameId} {m : Machine} {s s' s'' : Server}
  {create : CreateVersion} {fault : Fault} {draw : Draw}

/-! ### Replies -/

theorem Machine.replies_append (m : Machine) (as bs : List Action) :
    m.replies (as ++ bs) = m.replies as ++ (m.run as).replies bs := by
  induction as generalizing m with
  | nil => rfl
  | cons a as ih => rw [List.cons_append, replies, replies, ih, List.append_assoc, run_cons]

/-- A reply answers a `POST` among the actions. -/
theorem Machine.mem_replies {as : List Action} {r : Reply} (hr : r ∈ m.replies as) :
    (∃ req id now, Action.request (.createVersion r.gameId req id now) ∈ as) ∧
      r.accountId = m.device.accountId := by
  induction as generalizing m with
  | nil => cases hr
  | cons a as ih =>
      rcases List.mem_append.mp hr with hr | hr
      · unfold reply at hr
        split at hr
        · obtain rfl := List.mem_singleton.mp hr
          exact ⟨⟨_, _, _, List.mem_cons_self⟩, rfl⟩
        · cases hr
      · obtain ⟨⟨req, id, now, hmem⟩, hacc⟩ := ih hr
        refine ⟨⟨req, id, now, List.mem_cons_of_mem _ hmem⟩, hacc.trans ?_⟩
        cases a with
        | write w => exact Machine.Write.apply_accountId _ _
        | request q => rfl

/-- No upload of the game among the actions is answered with a conflict. -/
def Machine.NoConflict (m : Machine) (gameId : GameId) (as : List Action) : Prop :=
  ∀ r ∈ m.replies as, r.gameId = gameId → ∀ head incoming, r.reply ≠ .ok (.conflict head incoming)

theorem Machine.NoConflict.append {as bs : List Action} (h : m.NoConflict gameId as)
    (h' : (m.run as).NoConflict gameId bs) : m.NoConflict gameId (as ++ bs) := by
  intro r hr
  rw [replies_append] at hr
  rcases List.mem_append.mp hr with hr | hr
  · exact h r hr
  · exact h' r hr

theorem Machine.noConflict_of_other {as : List Action}
    (hother : ∀ g req id now, Action.request (.createVersion g req id now) ∈ as → g ≠ gameId) :
    m.NoConflict gameId as := by
  intro r hr hg
  obtain ⟨⟨req, id, now, hmem⟩, -⟩ := mem_replies hr
  exact absurd hg (hother _ _ _ _ hmem)

theorem Machine.noConflict_writes {as : List Action} (hwrite : ∀ a ∈ as, ∃ w, a = Action.write w) :
    m.NoConflict gameId as := by
  refine noConflict_of_other fun g req id now hmem => ?_
  obtain ⟨w, heq⟩ := hwrite _ hmem
  cases heq

/-! ### An upload whose parent is the head -/

/-- The upload changed nothing about the game, or its version is the new head. -/
def Forwarded (account : AccountId) (gameId : GameId) (create : CreateVersion) (s s' : Server)
    (reply : Option Advance) : Prop :=
  (reply = none ∧ SameGame account gameId s s') ∨
    ∃ v, reply = some (.fastForward v) ∧ v.request = create ∧
      s'.db.listVersions account gameId = v :: s.db.listVersions account gameId ∧
      s'.db.head account gameId = some v.id

/-- A post of a child of the head is forwarded or never sent, and no conflict is recorded for it. -/
theorem postVersion_inOrder (sound : m.server.Sound)
    (hparent : m.server.db.head m.device.accountId gameId = create.parent)
    (hfault : fault ≠ .postReply)
    (fresh : m.FreshFor (postVersion m fault gameId create draw).1) :
    Forwarded m.device.accountId gameId create m.server
        (m.run (postVersion m fault gameId create draw).1).server
        (postVersion m fault gameId create draw).2 ∧
      m.NoConflict gameId (postVersion m fault gameId create draw).1 := by
  have hmain : m.FreshFor [.request (.createVersion gameId create draw.versionId draw.now)] →
      Forwarded m.device.accountId gameId create m.server
        (m.server.createVersion m.authed gameId create draw.versionId draw.now).1
        (answered (m.server.createVersion m.authed gameId create draw.versionId draw.now).2.1) ∧
      m.NoConflict gameId
        [.request (.createVersion gameId create draw.versionId draw.now)] := by
    intro hfresh
    have hreply : ∀ r ∈ m.replies [.request (.createVersion gameId create draw.versionId draw.now)],
        r.reply = (m.server.createVersion m.authed gameId create draw.versionId draw.now).2.1 := by
      intro r hr
      obtain rfl := List.mem_singleton.mp hr
      rfl
    rcases Server.createVersion_cases sound m.authed gameId draw.now hfresh.1.1 with
      ⟨e, heq⟩ | ⟨-, -, ⟨game, hgame⟩, -, advance, hadvance, heq⟩
    · refine ⟨Or.inl ⟨by rw [heq]; rfl, by rw [heq]; exact SameGame.refl _⟩,
        fun r hr _ head inc => ?_⟩
      rw [hreply r hr, heq]
      simp
    · rw [if_pos (show m.server.db.head m.authed.accountId gameId = create.parent from hparent)]
        at hadvance
      refine ⟨Or.inr ⟨_, by rw [heq, hadvance]; rfl, rfl, ?_, ?_⟩, fun r hr _ head inc => ?_⟩
      · rw [heq]
        exact Db.listVersions_created _ _ _ _ _ _
      · rw [heq]
        change Db.head (m.server.db.created _ _ _ _ _) _ _ = _
        rw [show m.device.accountId = m.authed.accountId from rfl, Db.head_created hgame]
        exact if_pos hparent
      · rw [hreply r hr, heq, hadvance]
        simp
  unfold postVersion at fresh ⊢
  cases fault with
  | postReply => exact absurd rfl hfault
  | post => exact ⟨Or.inl ⟨rfl, SameGame.refl _⟩, by simp [Machine.NoConflict, Machine.replies]⟩
  | none | head | put | putReply => exact hmain fresh

/-- **An upload whose parent is the head, and whose reply is not lost**, moves the head
to its version or changes nothing. -/
theorem uploadVersion_inOrder (sound : m.server.Sound) {archivePath : Blake3Hash}
    (hparent : m.server.db.head m.device.accountId gameId = create.parent)
    (hfault : fault ≠ .postReply)
    (fresh : m.FreshFor (uploadVersion m fault gameId create archivePath draw).1) :
    Forwarded m.device.accountId gameId create m.server
        (m.run (uploadVersion m fault gameId create archivePath draw).1).server
        (uploadVersion m fault gameId create archivePath draw).2 ∧
      m.NoConflict gameId (uploadVersion m fault gameId create archivePath draw).1 := by
  obtain ⟨puts, hputs, heq⟩ := uploadVersion_cases m fault gameId create archivePath draw
  have hother : ∀ a ∈ puts, ¬ a.Writes m.device.accountId gameId m := by
    intro a ha
    obtain ⟨body, rfl⟩ := hputs a ha
    exact id
  have hquiet : m.NoConflict gameId puts := by
    refine Machine.noConflict_of_other fun g req id now hmem => ?_
    obtain ⟨body, hbody⟩ := hputs _ hmem
    cases hbody
  rcases heq with heq | heq
  · rw [heq] at fresh ⊢
    exact ⟨Or.inl ⟨rfl, sameGame_run sound fresh hother⟩, hquiet⟩
  · rw [heq, Machine.freshFor_append] at fresh
    rw [heq, Machine.run_append]
    obtain ⟨hsound, -, hacc⟩ := Machine.run_sound sound fresh.1
    have hsame : SameGame m.device.accountId gameId m.server (m.run puts).server :=
      sameGame_run sound fresh.1 hother
    obtain ⟨hforward, hpost⟩ := postVersion_inOrder (m := m.run puts) hsound
      (by rw [hacc, hsame.head]; exact hparent) hfault fresh.2
    rw [hacc] at hforward
    refine ⟨?_, hquiet.append hpost⟩
    rcases hforward with ⟨hnone, hrest⟩ | ⟨v, hv, hreq, hversions, hhead⟩
    · exact Or.inl ⟨hnone, hsame.trans hrest⟩
    · exact Or.inr ⟨v, hv, hreq, by rw [hversions, hsame.versions], hhead⟩

end Game

/-! ### The queue of one game -/

/-- The version an outbox row stands for, if it is one of the game. -/
def OutboxRow.create (gameId : GameId) (row : OutboxRow) : Option CreateVersion :=
  row.payload.bind fun p => if p.gameId = gameId then some p.createVersion else none

/-- The versions of the game that wait in the outbox. -/
def Device.queued (d : Device) (gameId : GameId) : List CreateVersion :=
  d.state.outbox.filterMap (OutboxRow.create gameId)

section Queue

variable {d : Device} {gameId : GameId} {id : Uuid}

omit [Blake3] in
/-- A row added to the outbox comes last among those its game has queued. -/
theorem queued_enqueue (gameId : GameId) (p : OutboxPayload) (next : Timestamp)
    (fresh : ∀ r ∈ d.state.outbox, r.id ≠ id) :
    ((Write.enqueueOutbox id p next).apply d).queued gameId =
        d.queued gameId ++ (if p.gameId = gameId then [p.createVersion] else []) ∧
      ((Write.enqueueOutbox id p next).apply d).state.outbox.map OutboxRow.id =
        d.state.outbox.map OutboxRow.id ++ [id] := by
  have hfilter : d.state.outbox.filter (fun r => decide (r.id ≠ id)) = d.state.outbox := by
    rw [List.filter_eq_self]
    intro r hr
    simpa using fresh r hr
  constructor
  · change (d.state.outbox.filter (fun r : OutboxRow => decide (r.id ≠ id)) ++ [_]).filterMap _ = _
    rw [hfilter, List.filterMap_append]
    congr 1
    by_cases hg : p.gameId = gameId
    · simp [OutboxRow.create, hg]
    · simp [OutboxRow.create, hg]
  · change (d.state.outbox.filter (fun r : OutboxRow => decide (r.id ≠ id)) ++ [_]).map _ = _
    rw [hfilter, List.map_append]
    rfl

omit [Blake3] in
/-- Counting an attempt changes neither the order of the outbox nor what it holds. -/
theorem queued_bump (d : Device) (gameId : GameId) (id : Uuid) (next : Timestamp) :
    ((Write.bumpOutboxAttempt id next).apply d).queued gameId = d.queued gameId ∧
      ((Write.bumpOutboxAttempt id next).apply d).state.outbox.map OutboxRow.id =
        d.state.outbox.map OutboxRow.id := by
  constructor
  · change (d.state.outbox.map _).filterMap _ = _
    rw [List.filterMap_map]
    refine List.filterMap_congr fun r _ => ?_
    simp only [Function.comp_apply]
    split <;> rfl
  · change (d.state.outbox.map _).map _ = _
    rw [List.map_map]
    refine List.map_congr_left fun r _ => ?_
    simp only [Function.comp_apply]
    split <;> rfl

omit [Blake3] in
/-- With distinct ids, exactly the one row goes. -/
theorem outbox_remove {row : OutboxRow} (ids : (d.state.outbox.map OutboxRow.id).Nodup)
    (hrow : row ∈ d.state.outbox) :
    ∃ before after, d.state.outbox = before ++ row :: after ∧
      ((Write.removeOutbox row.id).apply d).state.outbox = before ++ after := by
  obtain ⟨before, after, heq⟩ := List.append_of_mem hrow
  refine ⟨before, after, heq, ?_⟩
  change d.state.outbox.filter (fun r => decide (r.id ≠ row.id)) = _
  rw [heq, List.map_append, List.map_cons, List.nodup_append, List.nodup_cons] at ids
  obtain ⟨-, ⟨hafter, -⟩, hbefore⟩ := ids
  have hkeep : ∀ l : List OutboxRow, (∀ r ∈ l, r.id ≠ row.id) →
      l.filter (fun r => decide (r.id ≠ row.id)) = l := by
    intro l hl
    rw [List.filter_eq_self]
    intro r hr
    simpa using hl r hr
  rw [heq, List.filter_append, List.filter_cons_of_neg (by simp), hkeep before, hkeep after]
  · intro r hr hid
    exact hafter (hid ▸ List.mem_map_of_mem hr)
  · intro r hr hid
    exact hbefore r.id (List.mem_map_of_mem hr) row.id (by simp) hid

omit [Blake3] in
/-- Removing a row takes its version off the queue of its game and touches no other game's. -/
theorem queued_remove {row : OutboxRow} (ids : (d.state.outbox.map OutboxRow.id).Nodup)
    (hrow : row ∈ d.state.outbox) :
    (row.create gameId = none →
      ((Write.removeOutbox row.id).apply d).queued gameId = d.queued gameId) ∧
    ∀ c, row.create gameId = some c → (d.queued gameId).length ≤ 1 →
      d.queued gameId = [c] ∧ ((Write.removeOutbox row.id).apply d).queued gameId = [] := by
  obtain ⟨before, after, heq, hremoved⟩ := outbox_remove ids hrow
  unfold Device.queued
  rw [hremoved, heq, List.filterMap_append, List.filterMap_append]
  constructor
  · intro hnone
    rw [List.filterMap_cons_none hnone]
  · intro c hc hlength
    rw [List.filterMap_cons_some hc] at hlength ⊢
    rw [List.length_append, List.length_cons] at hlength
    have hbefore : before.filterMap (OutboxRow.create gameId) = [] :=
      List.eq_nil_of_length_eq_zero (by omega)
    have hafter : after.filterMap (OutboxRow.create gameId) = [] :=
      List.eq_nil_of_length_eq_zero (by omega)
    simp [hbefore, hafter]

end Queue

/-! ### The invariant -/

/-- Server and queue hold the backups `packed` in their order, at most one of them
still in the queue; the head is the newest version, and what the device and the
queue point at. -/
structure InOrder (gameId : GameId) (m : Machine) (packed : List CreateVersion) : Prop where
  sound : m.server.Sound
  outboxIds : (m.device.state.outbox.map OutboxRow.id).Nodup
  accounted : (m.server.db.listVersions m.device.accountId gameId).reverse.map Version.request ++
    m.device.queued gameId = packed
  single : (m.device.queued gameId).length ≤ 1
  newest : m.server.db.head m.device.accountId gameId =
    (m.server.db.listVersions m.device.accountId gameId).head?.map Version.id
  parent : m.device.parent gameId = m.server.db.head m.device.accountId gameId
  queuedParent : ∀ c ∈ m.device.queued gameId,
    c.parent = m.server.db.head m.device.accountId gameId
  based : m.device.queued gameId ≠ [] → ∃ snap, m.device.state.snapshots gameId = some snap

/-- The action has nothing to do with the game. -/
def Action.Other (gameId : GameId) : Action → Prop
  | .write (.putSnapshot g _ _ _) | .write (.setLocalHead g _)
  | .request (.createVersion g _ _ _) | .request (.resolve g _ _ _ _) => g ≠ gameId
  | .write (.enqueueOutbox _ p _) => p.gameId ≠ gameId
  | .write (.removeOutbox _) => False
  | _ => True

section InOrder

variable {gameId : GameId} {m m' : Machine} {packed : List CreateVersion}

/-- What leaves a game's versions, its queue and its snapshots alone keeps the game in order. -/
theorem InOrder.frame (h : InOrder gameId m packed) (sound : m'.server.Sound)
    (hacc : m'.device.accountId = m.device.accountId)
    (hsame : SameGame m.device.accountId gameId m.server m'.server)
    (hids : (m'.device.state.outbox.map OutboxRow.id).Nodup)
    (hqueued : m'.device.queued gameId = m.device.queued gameId)
    (hsnap : m'.device.state.snapshots gameId = m.device.state.snapshots gameId) :
    InOrder gameId m' packed := by
  refine ⟨sound, hids, ?_, ?_, ?_, ?_, ?_, ?_⟩
  · rw [hacc, hsame.versions, hqueued]
    exact h.accounted
  · rw [hqueued]
    exact h.single
  · rw [hacc, hsame.versions, hsame.head]
    exact h.newest
  · rw [Device.parent, hsnap, hacc, hsame.head]
    exact h.parent
  · rw [hqueued, hacc, hsame.head]
    exact h.queuedParent
  · rw [hqueued, hsnap]
    exact h.based

/-- What has nothing to do with the game changes nothing about it. -/
theorem InOrder.other (h : InOrder gameId m packed) {a : Action} (fresh : m.FreshAction a)
    (hother : a.Other gameId) : InOrder gameId (m.apply a) packed := by
  obtain ⟨hsound, -, hacc⟩ := Machine.run_sound h.sound
    (show m.FreshFor [a] from ⟨fresh, trivial⟩)
  have hsame : SameGame m.device.accountId gameId m.server (m.apply a).server := by
    refine sameGame_apply h.sound fresh fun hwrites => ?_
    unfold Action.Writes at hwrites
    split at hwrites
    · exact hother hwrites.2
    · exact hother hwrites.2
    · exact hwrites
  cases a with
  | request r => exact h.frame hsound hacc hsame h.outboxIds rfl rfl
  | write w =>
      cases w with
      | putSnapshot g | setLocalHead g =>
          exact h.frame hsound hacc hsame h.outboxIds rfl
            (Function.update_of_ne (Ne.symm hother) _ _)
      | enqueueOutbox id p next =>
          obtain ⟨hqueued, hids⟩ := queued_enqueue gameId p next fresh
          refine h.frame hsound hacc hsame ?_ ?_ rfl
          · change (((Write.enqueueOutbox id p next).apply m.device).state.outbox.map _).Nodup
            rw [hids, List.nodup_append]
            refine ⟨h.outboxIds, by simp, fun x hx y hy heq => ?_⟩
            obtain ⟨r, hr, rfl⟩ := List.mem_map.mp hx
            exact fresh r hr (heq.trans (List.mem_singleton.mp hy))
          · change ((Write.enqueueOutbox id p next).apply m.device).queued gameId = _
            rw [hqueued, if_neg hother, List.append_nil]
      | bumpOutboxAttempt id next =>
          obtain ⟨hqueued, hids⟩ := queued_bump m.device gameId id next
          refine h.frame hsound hacc hsame ?_ hqueued rfl
          change (((Write.bumpOutboxAttempt id next).apply m.device).state.outbox.map _).Nodup
          rw [hids]
          exact h.outboxIds
      | removeOutbox id => exact hother.elim
      | setUnconfirmed | setDiffcount | setLastBackupAt | cacheArchive | removeArchive =>
          exact h.frame hsound hacc hsame h.outboxIds rfl rfl

/-- Actions about other games leave the game in order, and raise no conflict for it. -/
theorem InOrder.others (h : InOrder gameId m packed) {as : List Action} (fresh : m.FreshFor as)
    (hother : ∀ a ∈ as, a.Other gameId) :
    InOrder gameId (m.run as) packed ∧ m.NoConflict gameId as := by
  constructor
  · induction as generalizing m with
    | nil => exact h
    | cons a as ih =>
        exact ih (h.other fresh.1 (hother a (by simp))) fresh.2 fun b hb => hother b (by simp [hb])
  · exact Machine.noConflict_of_other fun g req id now hmem => hother _ hmem

/-- A row of another game goes. -/
theorem InOrder.removeOther (h : InOrder gameId m packed) {row : OutboxRow}
    (hrow : row ∈ m.device.state.outbox) (hother : row.create gameId = none) :
    InOrder gameId (m.apply (.write (.removeOutbox row.id))) packed :=
  h.frame h.sound rfl (SameGame.refl _) (h.outboxIds.sublist (List.filter_sublist.map _))
    ((queued_remove h.outboxIds hrow).1 hother) rfl

/-! ### Backups -/

/-- The version an archive was packed for. -/
def Archive.create (a : Archive) : CreateVersion where
  parent := a.metadata.parent
  kind := a.metadata.kind
  files := a.metadata.files
  blobHash := Blake3.ofArchive a
  bytes := Blake3.packedLen a
  deviceId := a.metadata.deviceId

/-- The backup of the game an action packs. -/
def Action.packs (gameId : GameId) : Action → List CreateVersion
  | .write (.cacheArchive _ a) => if a.metadata.gameId = gameId then [a.create] else []
  | _ => []

theorem packBackup_create {d : Device} {job : BackupJob} {env : BackupEnv} {p : Packed}
    (hp : packBackup d job env = some p) : p.archive.create = p.create := by
  unfold packBackup at hp
  split at hp
  · cases hp
  · obtain ⟨⟨changed, deleted⟩, -, rfl⟩ := Option.map_eq_some_iff.mp hp
    rfl

/-- What `run_backup` packs: one archive, or none. -/
theorem runBackup_packs (m : Machine) (job : BackupJob) (env : BackupEnv) :
    (runBackup m job env).2.flatMap (Action.packs gameId) =
      if job.gameId = gameId then ((packBackup m.device job env).map Packed.create).toList
      else [] := by
  have hnone : ∀ as : List Action, (∀ a ∈ as, a.packs gameId = []) →
      as.flatMap (Action.packs gameId) = [] := fun as has => List.flatMap_eq_nil_iff.mpr has
  rcases runBackup_cases m job env with
    ⟨hp, heq⟩ | ⟨p, hp, ⟨advance, -, heq⟩ | ⟨-, heq⟩⟩
  · simp [heq, hp]
  all_goals
    have hsent :
        (p.upload (m.apply p.pack) job.gameId env).1.flatMap (Action.packs gameId) = [] := by
      refine hnone _ fun a ha => ?_
      obtain ⟨r, rfl⟩ := p.upload_requests _ _ _ a ha
      rfl
    have hpacked : p.pack.packs gameId = if job.gameId = gameId then [p.create] else [] := by
      change (if p.archive.metadata.gameId = gameId then [p.archive.create] else []) = _
      rw [(packBackup_archive hp).2.1, packBackup_create hp]
    rw [heq, List.flatMap_append, List.flatMap_cons, hsent, hpacked, hp]
  · cases advance <;> simp [settleBackup, confirmBackup, recordBranch, Action.packs]
  · simp [queueBackup, Action.packs]

/-- A backup of another game. -/
theorem InOrder.runBackup_other (h : InOrder gameId m packed) {job : BackupJob} {env : BackupEnv}
    (hgame : job.gameId ≠ gameId) (fresh : m.FreshFor (runBackup m job env).2) :
    InOrder gameId (m.run (runBackup m job env).2) packed ∧
      m.NoConflict gameId (runBackup m job env).2 := by
  refine h.others fresh fun a ha => ?_
  have hsent : ∀ p : Packed, a ∈ (p.upload (m.apply p.pack) job.gameId env).1 →
      a.Other gameId := by
    intro p hmem
    rcases p.mem_upload hmem with ⟨body, rfl⟩ | rfl
    · trivial
    · exact hgame
  rcases runBackup_cases m job env with
    ⟨hp, heq⟩ | ⟨p, hp, ⟨advance, -, heq⟩ | ⟨-, heq⟩⟩
  · simp [heq] at ha
  · rw [heq] at ha
    rcases List.mem_append.mp ha with ha | ha
    · rcases List.mem_cons.mp ha with rfl | ha
      · trivial
      · exact hsent p ha
    · obtain ⟨counters, hcounters, hsettle⟩ := settleBackup_eq m.device job.gameId p env advance
      rw [hsettle, List.append_assoc] at ha
      rcases List.mem_append.mp ha with ha | ha
      · simp only [List.mem_cons, List.not_mem_nil, or_false] at ha
        rcases ha with rfl | rfl
        · exact hgame
        · trivial
      · rcases List.mem_append.mp ha with ha | ha
        · obtain ⟨w, hw, rfl⟩ := List.mem_map.mp ha
          rcases hcounters w hw with ⟨g, n, rfl⟩ | ⟨at_, rfl⟩
          · trivial
          · trivial
        · obtain rfl := List.mem_singleton.mp ha
          trivial
  · rw [heq] at ha
    rcases List.mem_append.mp ha with ha | ha
    · rcases List.mem_cons.mp ha with rfl | ha
      · trivial
      · exact hsent p ha
    · simp only [queueBackup, List.mem_cons, List.not_mem_nil, or_false] at ha
      rcases ha with rfl | rfl | rfl
      · exact hgame
      · exact hgame
      · trivial

/-- After a fast-forward that empties the queue. -/
theorem InOrder.of_forwarded {s : Server} {packed' : List CreateVersion} {v : Version}
    (sound : m'.server.Sound) (hids : (m'.device.state.outbox.map OutboxRow.id).Nodup)
    (hversions : m'.server.db.listVersions m'.device.accountId gameId =
      v :: s.db.listVersions m'.device.accountId gameId)
    (hhead : m'.server.db.head m'.device.accountId gameId = some v.id)
    (hparent : m'.device.parent gameId = some v.id) (hqueued : m'.device.queued gameId = [])
    (hpacked : (s.db.listVersions m'.device.accountId gameId).reverse.map Version.request ++
      [v.request] = packed') :
    InOrder gameId m' packed' := by
  refine ⟨sound, hids, ?_, by simp [hqueued], ?_, ?_, by simp [hqueued], by simp [hqueued]⟩
  · rw [hversions, hqueued, List.append_nil, List.reverse_cons, List.map_append,
      List.map_singleton]
    exact hpacked
  · rw [hhead, hversions]
    rfl
  · rw [hparent, hhead]

/-- A backup queued over an empty queue. -/
theorem InOrder.queueBackup (h : InOrder gameId m packed) {p : Packed} {env : BackupEnv}
    (hempty : m.device.queued gameId = []) (hparent : p.create.parent = m.device.parent gameId)
    (fresh : m.FreshFor (queueBackup gameId p env)) :
    InOrder gameId (m.run (queueBackup gameId p env)) (packed ++ [p.create]) := by
  obtain ⟨hqueued, hids⟩ := queued_enqueue gameId ⟨gameId, p.create.blobHash, p.create⟩
    env.queuedAt fresh.1
  rw [hempty, if_pos rfl, List.nil_append] at hqueued
  have hrun : (m.run (Savr.queueBackup gameId p env)).device.queued gameId = [p.create] := hqueued
  have hsnap : (m.run (Savr.queueBackup gameId p env)).device.state.snapshots gameId =
      some ⟨p.create.files, p.takenAt, p.create.parent⟩ :=
    Function.update_self _ _ _
  have hhead : p.create.parent = m.server.db.head m.device.accountId gameId :=
    hparent.trans h.parent
  refine ⟨h.sound, ?_, ?_, by simp [hrun], h.newest, ?_, ?_, fun _ => ⟨_, hsnap⟩⟩
  · change (((Write.enqueueOutbox env.outboxId _ env.queuedAt).apply
      m.device).state.outbox.map _).Nodup
    rw [hids, List.nodup_append]
    refine ⟨h.outboxIds, by simp, fun x hx y hy heq => ?_⟩
    obtain ⟨r, hr, rfl⟩ := List.mem_map.mp hx
    exact fresh.1 r hr (heq.trans (List.mem_singleton.mp hy))
  · have haccounted := h.accounted
    rw [hempty, List.append_nil] at haccounted
    rw [hrun]
    exact congrArg (· ++ [p.create]) haccounted
  · rw [Device.parent, hsnap]
    exact hhead
  · intro c hc
    rw [hrun] at hc
    obtain rfl := List.mem_singleton.mp hc
    exact hhead

/-- The upload of a backup moves the head to its version or changes nothing. -/
theorem InOrder.backupUpload (h : InOrder gameId m packed) {env : BackupEnv} {p : Packed}
    (hparent : p.create.parent = m.device.parent gameId) (hfault : env.fault ≠ .postReply)
    (fresh : (m.apply p.pack).FreshFor (p.upload (m.apply p.pack) gameId env).1) :
    Forwarded m.device.accountId gameId p.create m.server
        (m.run (p.pack :: (p.upload (m.apply p.pack) gameId env).1)).server
        (p.upload (m.apply p.pack) gameId env).2 ∧
      m.NoConflict gameId (p.pack :: (p.upload (m.apply p.pack) gameId env).1) := by
  unfold Packed.upload at fresh ⊢
  split
  · rename_i hauth
    rw [if_pos hauth] at fresh
    exact uploadVersion_inOrder (m := m.apply p.pack) h.sound
      (h.parent.symm.trans hparent.symm) hfault fresh
  · exact ⟨Or.inl ⟨rfl, SameGame.refl _⟩, Machine.noConflict_writes (by simp [Packed.pack])⟩

/-- **A backup of the game over an empty queue**, unless its reply is lost. -/
theorem InOrder.runBackup (h : InOrder gameId m packed) {job : BackupJob} {env : BackupEnv}
    {p : Packed} (hgame : job.gameId = gameId) (hp : packBackup m.device job env = some p)
    (hempty : m.device.queued gameId = []) (hfault : env.fault ≠ .postReply)
    (fresh : m.FreshFor (runBackup m job env).2) :
    InOrder gameId (m.run (runBackup m job env).2) (packed ++ [p.create]) ∧
      m.NoConflict gameId (runBackup m job env).2 := by
  subst hgame
  obtain ⟨-, hparent⟩ := packBackup_eq_some hp
  rcases runBackup_cases m job env with
    ⟨hnone, -⟩ | ⟨q, hq, ⟨advance, hreply, heq⟩ | ⟨hreply, heq⟩⟩
  · rw [hp] at hnone
    cases hnone
  all_goals
    obtain rfl : p = q := Option.some.inj (hp.symm.trans hq)
    rw [heq, Machine.freshFor_append] at fresh
    rw [heq, Machine.run_append]
    obtain ⟨hforward, hquiet⟩ := h.backupUpload hparent hfault fresh.1.2
    obtain ⟨hsound, -, hacc⟩ := Machine.run_sound h.sound fresh.1
    have hstate := p.upload_state m job.gameId env
    generalize m.run (p.pack :: (p.upload (m.apply p.pack) job.gameId env).1) = m₁ at *
    rcases hforward with ⟨hnone, hsame⟩ | ⟨v, hv, hreq, hversions, hhead⟩
  · rw [hreply] at hnone
    cases hnone
  · obtain rfl : advance = .fastForward v := Option.some.inj (hreply.symm.trans hv)
    have haccounted := h.accounted
    rw [hempty, List.append_nil] at haccounted
    refine ⟨InOrder.of_forwarded (s := m.server) (v := v) hsound ?_ ?_ ?_ ?_ ?_ ?_, ?_⟩
    · change (m₁.device.state.outbox.map _).Nodup
      rw [hstate]
      exact h.outboxIds
    · change m₁.server.db.listVersions m₁.device.accountId _ = _
      rw [hacc, hversions]
      exact congrArg _ (congrArg (m.server.db.listVersions · job.gameId) hacc.symm)
    · change m₁.server.db.head m₁.device.accountId _ = _
      rw [hacc]
      exact hhead
    · rw [Device.parent]
      change (Function.update m₁.device.state.snapshots job.gameId _ job.gameId).bind _ = _
      rw [Function.update_self]
      rfl
    · change m₁.device.queued job.gameId = []
      rw [Device.queued, hstate]
      exact hempty
    · change (m.server.db.listVersions m₁.device.accountId _).reverse.map _ ++ _ = _
      rw [hacc, haccounted, hreq]
    · exact hquiet.append (Machine.noConflict_writes (by simp [settleBackup, confirmBackup]))
  · refine ⟨InOrder.queueBackup ?_ ?_ ?_ fresh.2,
      hquiet.append (Machine.noConflict_writes (by simp [Savr.queueBackup]))⟩
    · refine h.frame hsound hacc hsame ?_ ?_ ?_
      · rw [hstate]
        exact h.outboxIds
      · rw [Device.queued, hstate]
        rfl
      · rw [hstate]
    · rw [Device.queued, hstate]
      exact hempty
    · rw [Device.parent, hstate]
      exact hparent
  · rw [hreply] at hv
    cases hv

/-! ### Drains -/

/-- The other rows are still there after an entry of a drain. -/
theorem retryItem_keeps (now : Timestamp) {item : OutboxRow} (env : RetryEnv) {row : OutboxRow}
    (hrow : row ∈ m.device.state.outbox) (hne : row.id ≠ item.id) :
    ∃ row' ∈ (m.run (retryItem m now item env)).device.state.outbox,
      row'.id = row.id ∧ row'.payload = row.payload := by
  have hfilter : row ∈ m.device.state.outbox.filter fun r => decide (r.id ≠ item.id) :=
    List.mem_filter.mpr ⟨hrow, by simpa using hne⟩
  rcases retryItem_cases m now item env with
    ⟨-, heq⟩ | ⟨p, -, ⟨advance, -, marks, hmarks, heq⟩ | ⟨-, next, heq⟩⟩
  · rw [heq]
    exact ⟨row, hfilter, rfl, rfl⟩
  · obtain ⟨at_, hrun⟩ := p.run_answered m env item.id advance.version.id hmarks
    rw [heq, hrun]
    exact ⟨row, hfilter, rfl, rfl⟩
  · rw [heq, p.run_unanswered]
    exact ⟨row, List.mem_map.mpr ⟨row, hrow, if_neg hne⟩, rfl, rfl⟩

section Entry

variable {s' : Server} {row : OutboxRow} {p : OutboxPayload} {env : RetryEnv}

/-- What the upload of an entry does to the game: it is one of the game and moves the head
or changes nothing, or it is about another game. -/
theorem InOrder.retryUpload (h : InOrder gameId m packed) (hrow : row ∈ m.device.state.outbox)
    (hpayload : row.payload = some p)
    (hfault : row.create gameId ≠ none → env.fault ≠ .postReply)
    (fresh : m.FreshFor (p.upload m env).1) :
    (row.create gameId = some p.createVersion ∧ p.gameId = gameId ∧
        Forwarded m.device.accountId gameId p.createVersion m.server
          (m.run (p.upload m env).1).server (p.upload m env).2 ∨
      row.create gameId = none ∧ p.gameId ≠ gameId ∧
        SameGame m.device.accountId gameId m.server (m.run (p.upload m env).1).server) ∧
      m.NoConflict gameId (p.upload m env).1 := by
  by_cases hg : p.gameId = gameId
  · have hcreate : row.create gameId = some p.createVersion := by
      rw [OutboxRow.create, hpayload, Option.bind_some, if_pos hg]
    obtain ⟨hqueued, -⟩ := (queued_remove h.outboxIds hrow).2 _ hcreate h.single
    have hparent := h.queuedParent p.createVersion (by rw [hqueued]; simp)
    subst hg
    obtain ⟨hforward, hquiet⟩ := uploadVersion_inOrder h.sound hparent.symm
      (hfault (by rw [hcreate]; simp)) fresh
    exact ⟨Or.inl ⟨hcreate, rfl, hforward⟩, hquiet⟩
  · have hcreate : row.create gameId = none := by
      rw [OutboxRow.create, hpayload, Option.bind_some, if_neg hg]
    refine ⟨Or.inr ⟨hcreate, hg, sameGame_run h.sound fresh fun a ha hwrites => ?_⟩,
      Machine.noConflict_of_other fun g req id now hmem => ?_⟩
    · rcases mem_uploadVersion ha with ⟨body, rfl⟩ | rfl
      · exact hwrites
      · exact hg hwrites.2
    · rcases mem_uploadVersion hmem with ⟨body, hbody⟩ | hpost
      · cases hbody
      · cases hpost
        exact hg

/-- An answered entry of the game: its version is the newest one, and the queue is empty. -/
theorem InOrder.answered (h : InOrder gameId m packed) (hrow : row ∈ m.device.state.outbox)
    {create : CreateVersion} (hcreate : row.create gameId = some create) (sound : s'.Sound)
    {v : Version} (hreq : v.request = create)
    (hversions : s'.db.listVersions m.device.accountId gameId =
      v :: m.server.db.listVersions m.device.accountId gameId)
    (hhead : s'.db.head m.device.accountId gameId = some v.id) (at_ : Option Timestamp)
    (cache : Blake3Hash → Option Archive) :
    InOrder gameId
      ⟨{ m.device with
          state := { (m.device.state.setLocalHead gameId v.id).removeOutbox row.id with
            lastBackupAt := at_ }
          cache := cache }, s'⟩ packed := by
  obtain ⟨hqueued, hremoved⟩ := (queued_remove h.outboxIds hrow).2 _ hcreate h.single
  obtain ⟨snap, hsnap⟩ := h.based (by rw [hqueued]; simp)
  have haccounted := h.accounted
  rw [hqueued] at haccounted
  refine InOrder.of_forwarded (s := m.server) (v := v) sound ?_ hversions hhead ?_ hremoved ?_
  · exact h.outboxIds.sublist (List.filter_sublist.map _)
  · change (Function.update m.device.state.snapshots gameId _ gameId).bind _ = _
    rw [Function.update_self, hsnap]
    rfl
  · rw [hreq]
    exact haccounted

/-- An answered entry of another game. -/
theorem InOrder.answeredOther (h : InOrder gameId m packed) (hrow : row ∈ m.device.state.outbox)
    (hcreate : row.create gameId = none) {g : GameId} (hg : g ≠ gameId) (sound : s'.Sound)
    (hsame : SameGame m.device.accountId gameId m.server s') (head : VersionId)
    (at_ : Option Timestamp) (cache : Blake3Hash → Option Archive) :
    InOrder gameId
      ⟨{ m.device with
          state := { (m.device.state.setLocalHead g head).removeOutbox row.id with
            lastBackupAt := at_ }
          cache := cache }, s'⟩ packed :=
  h.frame sound rfl hsame (h.outboxIds.sublist (List.filter_sublist.map _))
    ((queued_remove h.outboxIds hrow).1 hcreate) (Function.update_of_ne (Ne.symm hg) _ _)

/-- An entry without an answer stays for later. -/
theorem InOrder.unanswered (h : InOrder gameId m packed) (sound : s'.Sound)
    (hsame : SameGame m.device.accountId gameId m.server s') (id : Uuid) (next : Timestamp) :
    InOrder gameId ⟨(Write.bumpOutboxAttempt id next).apply m.device, s'⟩ packed := by
  obtain ⟨hqueued, hids⟩ := queued_bump m.device gameId id next
  refine h.frame sound rfl hsame ?_ hqueued rfl
  change (((Write.bumpOutboxAttempt id next).apply m.device).state.outbox.map _).Nodup
  rw [hids]
  exact h.outboxIds

end Entry

/-- **One entry of a drain**, unless it is one of the game and its reply is lost. -/
theorem InOrder.retryItem (h : InOrder gameId m packed) {now : Timestamp} {item : OutboxRow}
    {env : RetryEnv} {row : OutboxRow} (hrow : row ∈ m.device.state.outbox)
    (hid : row.id = item.id) (hpayload : row.payload = item.payload)
    (hfault : item.create gameId ≠ none → env.fault ≠ .postReply)
    (fresh : m.FreshFor (retryItem m now item env)) :
    InOrder gameId (m.run (retryItem m now item env)) packed ∧
      m.NoConflict gameId (retryItem m now item env) := by
  have hfault : row.create gameId ≠ none → env.fault ≠ .postReply := by
    rwa [OutboxRow.create, hpayload]
  rcases retryItem_cases m now item env with
    ⟨hnone, heq⟩ | ⟨p, hp, ⟨advance, hreply, marks, hmarks, heq⟩ | ⟨hreply, next, heq⟩⟩
  · rw [heq, ← hid]
    refine ⟨h.removeOther hrow ?_, Machine.noConflict_writes (by simp)⟩
    rw [OutboxRow.create, hpayload, hnone]
    rfl
  · have hfresh : m.FreshFor (p.upload m env).1 := by
      rw [heq, List.append_assoc] at fresh
      exact (Machine.freshFor_append.mp fresh).1
    obtain ⟨sound, -, -⟩ := Machine.run_sound h.sound hfresh
    obtain ⟨hgame, hquiet⟩ := h.retryUpload hrow (hpayload.trans hp) hfault hfresh
    obtain ⟨at_, hrun⟩ := p.run_answered m env item.id advance.version.id hmarks
    refine ⟨?_, ?_⟩
    · rw [heq, hrun, ← hid]
      rcases hgame with ⟨hcreate, rfl, ⟨hnone, -⟩ | ⟨v, hv, hreq, hversions, hhead⟩⟩ |
        ⟨hcreate, hg, hsame⟩
      · rw [hreply] at hnone
        cases hnone
      · obtain rfl : advance = .fastForward v := Option.some.inj (hreply.symm.trans hv)
        exact h.answered hrow hcreate sound hreq hversions hhead at_ _
      · exact h.answeredOther hrow hcreate hg sound hsame _ at_ _
    · rw [heq, List.append_assoc]
      refine hquiet.append (Machine.noConflict_writes fun a ha => ?_)
      simp only [List.mem_append, List.mem_cons, List.mem_map, List.not_mem_nil, or_false] at ha
      rcases ha with (rfl | ⟨w, -, rfl⟩) | rfl | rfl
      all_goals exact ⟨_, rfl⟩
  · have hfresh : m.FreshFor (p.upload m env).1 := by
      rw [heq] at fresh
      exact (Machine.freshFor_append.mp fresh).1
    obtain ⟨sound, -, -⟩ := Machine.run_sound h.sound hfresh
    obtain ⟨hgame, hquiet⟩ := h.retryUpload hrow (hpayload.trans hp) hfault hfresh
    have hsame : SameGame m.device.accountId gameId m.server
        (m.run (p.upload m env).1).server := by
      rcases hgame with ⟨-, -, ⟨-, hsame⟩ | ⟨v, hv, -⟩⟩ | ⟨-, -, hsame⟩
      · exact hsame
      · rw [hreply] at hv
        cases hv
      · exact hsame
    rw [heq, p.run_unanswered]
    exact ⟨h.unanswered sound hsame item.id next,
      hquiet.append (Machine.noConflict_writes (by simp))⟩

/-- The loop over the due entries. -/
theorem InOrder.retryLoop {now : Timestamp} {env : Uuid → RetryEnv} {items : List OutboxRow}
    (h : InOrder gameId m packed) (hids : (items.map OutboxRow.id).Nodup)
    (hpresent : ∀ item ∈ items, ∃ row ∈ m.device.state.outbox,
      row.id = item.id ∧ row.payload = item.payload)
    (hfault : ∀ item ∈ items, item.create gameId ≠ none → (env item.id).fault ≠ .postReply)
    (fresh : m.FreshFor (retryLoop now env m items)) :
    InOrder gameId (m.run (retryLoop now env m items)) packed ∧
      m.NoConflict gameId (retryLoop now env m items) := by
  induction items generalizing m with
  | nil => exact ⟨h, by simp [Savr.retryLoop, Machine.NoConflict, Machine.replies]⟩
  | cons item items ih =>
      rw [Savr.retryLoop, Machine.freshFor_append] at fresh
      rw [Savr.retryLoop, Machine.run_append]
      rw [List.map_cons, List.nodup_cons] at hids
      obtain ⟨row, hrow, hid, hpayload⟩ := hpresent item (by simp)
      obtain ⟨hitem, hquiet⟩ :=
        h.retryItem hrow hid hpayload (hfault item (by simp)) fresh.1
      have hpresent' : ∀ i ∈ items, ∃ row ∈ (m.run (Savr.retryItem m now item
          (env item.id))).device.state.outbox, row.id = i.id ∧ row.payload = i.payload := by
        intro i hi
        obtain ⟨row', hrow', hid', hpayload'⟩ := hpresent i (by simp [hi])
        have hne : row'.id ≠ item.id := by
          rw [hid']
          exact fun heq => hids.1 (heq ▸ List.mem_map_of_mem hi)
        obtain ⟨row'', hrow'', hid'', hpayload''⟩ :=
          retryItem_keeps now (env item.id) hrow' hne
        exact ⟨row'', hrow'', hid''.trans hid', hpayload''.trans hpayload'⟩
      obtain ⟨hrest, hquiet'⟩ :=
        ih hitem hids.2 hpresent' (fun i hi => hfault i (by simp [hi])) fresh.2
      exact ⟨hrest, hquiet.append hquiet'⟩

/-- A retry pass keeps the game in order, as long as the server's reply to its own post is
not lost. -/
theorem InOrder.retryOutbox (h : InOrder gameId m packed) {authenticated : Bool}
    {now : Timestamp} {env : Uuid → RetryEnv}
    (hfault : ∀ item ∈ m.device.state.dueOutbox now, item.create gameId ≠ none →
      (env item.id).fault ≠ .postReply)
    (fresh : m.FreshFor (retryOutbox m authenticated now env)) :
    InOrder gameId (m.run (retryOutbox m authenticated now env)) packed ∧
      m.NoConflict gameId (retryOutbox m authenticated now env) := by
  unfold Savr.retryOutbox at fresh ⊢
  split
  · rename_i hauth
    rw [if_pos hauth] at fresh
    refine h.retryLoop ?_ (fun item hitem => ⟨item, ?_, rfl, rfl⟩) hfault fresh
    · rw [LocalState.dueOutbox, ((RankedList.sortBy_perm _).map _).nodup_iff]
      exact h.outboxIds.sublist (List.filter_sublist.map _)
    · rw [LocalState.dueOutbox, RankedList.mem_sortBy] at hitem
      exact List.mem_of_mem_filter hitem
  · exact ⟨h, by simp [Machine.NoConflict, Machine.replies]⟩

/-- A drain packs nothing. -/
theorem retryOutbox_packs (m : Machine) (authenticated : Bool) (now : Timestamp)
    (env : Uuid → RetryEnv) :
    (retryOutbox m authenticated now env).flatMap (Action.packs gameId) = [] := by
  have hitem : ∀ (m : Machine) (item : OutboxRow) (env : RetryEnv),
      ∀ a ∈ retryItem m now item env, a.packs gameId = [] := by
    intro m item env a ha
    rcases retryItem_cases m now item env with
      ⟨-, heq⟩ | ⟨p, -, ⟨advance, -, marks, hmarks, heq⟩ | ⟨-, next, heq⟩⟩
    · obtain rfl : a = _ := by simpa [heq] using ha
      rfl
    all_goals
      rw [heq] at ha
      simp only [List.mem_append, List.mem_cons, List.mem_map, List.not_mem_nil, or_false] at ha
    · rcases ha with (ha | rfl | ⟨w, hw, rfl⟩) | rfl | rfl
      · obtain ⟨r, rfl⟩ := uploadVersion_requests _ _ _ _ _ _ a ha
        rfl
      · rfl
      · obtain ⟨at_, rfl⟩ := hmarks w hw
        rfl
      · rfl
      · rfl
    · rcases ha with ha | rfl
      · obtain ⟨r, rfl⟩ := uploadVersion_requests _ _ _ _ _ _ a ha
        rfl
      · rfl
  have hloop : ∀ (items : List OutboxRow) (m : Machine),
      (retryLoop now env m items).flatMap (Action.packs gameId) = [] := by
    intro items
    induction items with
    | nil => exact fun _ => rfl
    | cons item items ih =>
        intro m
        rw [Savr.retryLoop, List.flatMap_append, ih, List.append_nil]
        exact List.flatMap_eq_nil_iff.mpr (hitem m item (env item.id))
  unfold Savr.retryOutbox
  split
  · exact hloop _ m
  · rfl

end InOrder

/-! ### Whole runs -/

/-- The backups of the game a device has packed along a run. -/
def packedBackups (d : ℕ) (gameId : GameId) (trace : List Event) : List CreateVersion :=
  trace.flatMap fun ev =>
    if ev.device = d then ev.performed.flatMap (Action.packs gameId) else []

/-- The device only backs up and drains, and no other device writes the game. -/
def SoleWriter (d : ℕ) (gameId : GameId) (w : World) (ev : Event) : Prop :=
  if ev.device = d then
    Completes w ev ∧ match ev.op with
      | .backup _ _ | .retry _ _ _ => True
      | _ => False
  else ∀ a ∈ ev.performed, ¬ a.Writes (w.devices d).accountId gameId (w.machine ev.device)

/-- A backup that has something to pack finds nothing of the game in the outbox, and
no upload of the game loses its reply after the server has committed. -/
def KeepsUp (d : ℕ) (gameId : GameId) (w : World) (ev : Event) : Prop :=
  ev.device = d → match ev.op with
    | .backup job env => job.gameId = gameId → packBackup (w.devices d) job env ≠ none →
        (w.devices d).queued gameId = [] ∧ env.fault ≠ .postReply
    | .retry _ now env => ∀ item ∈ (w.devices d).state.dueOutbox now,
        item.create gameId ≠ none → (env item.id).fault ≠ .postReply
    | _ => True

section World

variable {d : ℕ} {gameId : GameId} {w w' w₀ : World} {ev : Event} {trace : List Event}
  {packed : List CreateVersion}

/-- A whole script of the only writer keeps its game in order, what was packed extended by
what the script packs. -/
theorem InOrder.script (h : InOrder gameId (w.machine d) packed) (hd : ev.device = d)
    (sole : SoleWriter d gameId w ev) (keepsUp : KeepsUp d gameId w ev)
    (fresh : (w.machine d).FreshFor (ev.op.script (w.machine d))) :
    InOrder gameId ((w.machine d).run (ev.op.script (w.machine d)))
        (packed ++ (ev.op.script (w.machine d)).flatMap (Action.packs gameId)) ∧
      (w.machine d).NoConflict gameId (ev.op.script (w.machine d)) := by
  rw [SoleWriter, if_pos hd] at sole
  have hcond := keepsUp hd
  cases hop : ev.op with
  | backup job env =>
      rw [hop] at fresh
      simp only [hop] at hcond
      change InOrder gameId (Machine.run _ (Savr.runBackup _ job env).2)
        (packed ++ (Savr.runBackup _ job env).2.flatMap _) ∧ _
      rw [runBackup_packs]
      by_cases hgame : job.gameId = gameId
      · rw [if_pos hgame]
        cases hp : packBackup (w.machine d).device job env with
        | none =>
            rw [Op.script, runBackup_of_none hp]
            exact ⟨by simpa using h, by simp [Machine.NoConflict, Machine.replies]⟩
        | some p =>
            have hsome : packBackup (w.machine d).device job env ≠ none := by
              rw [hp]
              simp
            obtain ⟨hempty, hfault⟩ := hcond hgame hsome
            exact h.runBackup hgame hp hempty hfault fresh
      · rw [if_neg hgame, List.append_nil]
        exact h.runBackup_other hgame fresh
  | retry authenticated now env =>
      rw [hop] at fresh
      simp only [hop] at hcond
      change InOrder gameId (Machine.run _ (Savr.retryOutbox _ authenticated now env))
        (packed ++ (Savr.retryOutbox _ authenticated now env).flatMap _) ∧ _
      rw [retryOutbox_packs, List.append_nil]
      exact h.retryOutbox hcond fresh
  -- the sole writer only backs up and drains its outbox
  | restore g target => simp [hop] at sole
  | resolve g winner keepBoth id now => simp [hop] at sole

/-- A step of another device that does not write the game. -/
theorem InOrder.elsewhere (h : InOrder gameId (w.machine d) packed) (step : Step w ev w')
    (hd : ev.device ≠ d) (sole : SoleWriter d gameId w ev) :
    InOrder gameId (w'.machine d) packed ∧
      ∀ r ∈ ev.replies, r.accountId = (w.devices d).accountId → r.gameId ≠ gameId := by
  obtain ⟨k, hperf, fresh, rfl, hreplies⟩ := step.performs
  rw [SoleWriter, if_neg hd] at sole
  have hfresh := fresh.take k
  rw [← hperf] at hfresh
  constructor
  · have hsound := Machine.run_sound (m := w.machine ev.device) h.sound hfresh
    have hsame := sameGame_run (m := w.machine ev.device) h.sound hfresh sole
    rw [World.perform_machine_of_ne w (Ne.symm hd)]
    exact h.frame hsound.1 rfl hsame h.outboxIds rfl rfl
  · intro r hr hacc hg
    rw [hreplies] at hr
    obtain ⟨⟨req, id, now, hmem⟩, hacc'⟩ := Machine.mem_replies hr
    exact sole _ hmem ⟨hacc'.symm.trans hacc, hg⟩

/-- In a new world nothing is packed, queued or listed. -/
theorem World.New.inOrder (new : w.New) (d : ℕ) (gameId : GameId) :
    InOrder gameId (w.machine d) [] := by
  have hversions := new.fresh.listVersions_nil (w.devices d).accountId gameId
  have hhead := new.fresh.head_none (w.devices d).accountId gameId
  have hqueued : (w.devices d).queued gameId = [] := by
    rw [Device.queued, (new.devices d).outbox]
    rfl
  refine ⟨new.sound, ?_, ?_, ?_, ?_, ?_, ?_, ?_⟩
  · simp [(new.devices d).outbox]
  · simp [hversions, hqueued]
  · simp [hqueued]
  · simp [hversions, hhead]
  · simp [Device.parent, (new.devices d).snapshots, hhead]
  · simp [hqueued]
  · simp [hqueued]

/-- **One device never conflicts with itself**, as long as it keeps up: in every run in
which it is the only writer of a game, every upload of the game is a fast-forward or is
rejected, the history followed by the queue is the list of its backups, and once the
queue is empty the head is the version of the newest. -/
theorem single_writer_in_order (new : w₀.New)
    (run : Run (under Step fun w ev => SoleWriter d gameId w ev ∧ KeepsUp d gameId w ev)
      w₀ trace w) :
    (∀ ev ∈ trace, ∀ r ∈ ev.replies, r.accountId = (w.devices d).accountId →
      r.gameId = gameId → ∀ head incoming, r.reply ≠ .ok (.conflict head incoming)) ∧
    (w.server.db.listVersions (w.devices d).accountId gameId).reverse.map Version.request ++
      (w.devices d).queued gameId = packedBackups d gameId trace ∧
    ((w.devices d).queued gameId = [] → ∀ c, (packedBackups d gameId trace).getLast? = some c →
      ∃ v ∈ w.server.db.listVersions (w.devices d).accountId gameId,
        w.server.db.head (w.devices d).accountId gameId = some v.id ∧ v.request = c) := by
  obtain ⟨hquiet, horder⟩ : (∀ ev ∈ trace, ∀ r ∈ ev.replies,
      r.accountId = (w.devices d).accountId → r.gameId = gameId →
        ∀ head incoming, r.reply ≠ .ok (.conflict head incoming)) ∧
      InOrder gameId (w.machine d) (packedBackups d gameId trace) := by
    refine run.invariant_trace (I := fun trace w => (∀ ev ∈ trace, ∀ r ∈ ev.replies,
      r.accountId = (w.devices d).accountId → r.gameId = gameId →
        ∀ head incoming, r.reply ≠ .ok (.conflict head incoming)) ∧
      InOrder gameId (w.machine d) (packedBackups d gameId trace)) ?_
      ⟨by simp, new.inOrder d gameId⟩
    rintro trace w ev w' ⟨hquiet, horder⟩ ⟨step, sole, keepsUp⟩
    have hacc := (step.sound horder.sound).2.2 d
    have hpacked : packedBackups d gameId (trace ++ [ev]) = packedBackups d gameId trace ++
        if ev.device = d then ev.performed.flatMap (Action.packs gameId) else [] := by
      simp [packedBackups]
    rw [hpacked]
    by_cases hd : ev.device = d
    · have hcompletes : ev.performed = ev.op.script (w.machine d) := by
        rw [SoleWriter, if_pos hd] at sole
        rw [← hd]
        exact sole.1
      obtain ⟨k, -, fresh, rfl, hreplies⟩ := step.performs
      rw [hd] at fresh hreplies
      obtain ⟨horder', hquiet'⟩ := horder.script hd sole keepsUp fresh
      rw [if_pos hd, hcompletes]
      rw [hcompletes] at hreplies hacc
      refine ⟨fun e he r hr hracc hg => ?_, ?_⟩
      · rcases List.mem_append.mp he with he | he
        · exact hquiet e he r hr (hracc.trans hacc) hg
        · obtain rfl := List.mem_singleton.mp he
          exact hquiet' r (hreplies ▸ hr) hg
      · rw [hd, World.perform_machine]
        exact horder'
    · obtain ⟨horder', helse⟩ := horder.elsewhere step hd sole
      rw [if_neg hd, List.append_nil]
      refine ⟨fun e he r hr hracc hg => ?_, horder'⟩
      rw [hacc] at hracc
      rcases List.mem_append.mp he with he | he
      · exact hquiet e he r hr hracc hg
      · obtain rfl := List.mem_singleton.mp he
        exact absurd hg (helse r hr hracc)
  refine ⟨hquiet, horder.accounted, fun hempty c hc => ?_⟩
  have haccounted := horder.accounted
  have hnewest := horder.newest
  simp only [World.machine_device, World.machine_server] at haccounted hnewest
  rw [hempty, List.append_nil] at haccounted
  rw [← haccounted] at hc
  cases hversions : w.server.db.listVersions (w.devices d).accountId gameId with
  | nil => simp [hversions] at hc
  | cons v versions =>
      rw [hversions] at hc hnewest
      refine ⟨v, by simp, hnewest, ?_⟩
      simpa using hc

end World

end General

/-! ### Two backups while the server is out of reach -/

section Example

local instance singleWriterDigest : Blake3 := plainDigest

/-- The reply to a version that branched off. -/
def isConflict : Except ApiError Advance → Bool
  | .ok (.conflict _ _) => true
  | _ => false

theorem isConflict_iff {reply : Except ApiError Advance} :
    isConflict reply = true ↔ ∃ head incoming, reply = .ok (.conflict head incoming) := by
  cases reply with
  | error e => simp [isConflict]
  | ok advance => cases advance <;> simp [isConflict]

/-- Two backups that are queued, and the drain of both. -/
def queuedTwice : List (ℕ × Op) :=
  [(0, .backup exampleJob (exampleBackup (oneByteSave 1) false .none 1)),
   (0, .backup exampleJob (exampleBackup (oneByteSave 2) false .none 2)),
   (0, exampleRetry 10)]

/-- Both declare the same parent, and the second upload is a conflict. -/
theorem queued_backup_conflicts_with_itself :
    newWorld.New ∧ Run (under Step (SoleWriter 0 10)) newWorld (newWorld.events queuedTwice)
        (newWorld.after queuedTwice) ∧
      ∃ ev ∈ newWorld.events queuedTwice, ∃ r ∈ ev.replies, r.accountId = 1 ∧ r.gameId = 10 ∧
        ∃ head incoming, r.reply = .ok (.conflict head incoming) := by
  have hreply : ∃ ev ∈ newWorld.events queuedTwice, ∃ r ∈ ev.replies, r.accountId = 1 ∧
      r.gameId = 10 ∧ isConflict r.reply = true := by
    decide +kernel
  refine ⟨newWorld_new, World.run_after (by decide +kernel) ?_, ?_⟩
  · exact ⟨⟨rfl, trivial⟩, ⟨rfl, trivial⟩, ⟨rfl, trivial⟩, trivial⟩
  · obtain ⟨ev, hev, r, hr, hacc, hgame, hconflict⟩ := hreply
    exact ⟨ev, hev, r, hr, hacc, hgame, isConflict_iff.mp hconflict⟩

/-- A backup that is queued, its drain, and a backup online. -/
def drainedBetween : List (ℕ × Op) :=
  [(0, .backup exampleJob (exampleBackup (oneByteSave 1) false .none 1)),
   (0, exampleRetry 10),
   (0, .backup exampleJob (exampleBackup (oneByteSave 2) true .none 11))]

/-- The history is the two backups. -/
theorem single_writer_drained :
    (packedBackups 0 10 (newWorld.events drainedBetween)).length = 2 ∧
      ((newWorld.after drainedBetween).server.db.listVersions 1 10).reverse.map Version.request =
        packedBackups 0 10 (newWorld.events drainedBetween) := by
  have run : Run (under Step fun w ev => SoleWriter 0 10 w ev ∧ KeepsUp 0 10 w ev) newWorld
      (newWorld.events drainedBetween) (newWorld.after drainedBetween) := by
    refine World.run_after (by decide +kernel) ⟨⟨⟨rfl, trivial⟩, ?_⟩, ⟨⟨rfl, trivial⟩, ?_⟩,
      ⟨⟨rfl, trivial⟩, ?_⟩, trivial⟩
    · exact fun _ _ _ => ⟨rfl, by decide⟩
    · exact fun _ item _ _ => Fault.noConfusion
    · exact fun _ _ _ => ⟨by decide +kernel, by decide⟩
  have hqueued : ((newWorld.after drainedBetween).devices 0).queued 10 = [] := by
    decide +kernel
  have haccounted := (single_writer_in_order newWorld_new run).2.1
  rw [hqueued, List.append_nil] at haccounted
  exact ⟨by decide +kernel, haccounted⟩

end Example

end Savr
