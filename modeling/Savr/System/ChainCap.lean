import Savr.System.SingleWriter

/-!
# How long restore chains get

`run_backup` takes a full "periodically to cap restore-chain length": it counts the
differentials it has taken since the last full, and takes a full once there are
`full_every`.  The counter belongs to a device and a game; the chain of a version
belongs to the history, and grows with whatever the device declares as the parent of
its next differential.

The cap holds as long as the counter covers the chain of the version the device would
build on.  `chains_capped` is that statement for whole runs.  What breaks the cover: a
differential that ends in a conflict (the device moves to it, the counter does not), an
old differential from the outbox, a restore of a version further from its full than the
counter says; and the pre-restore backup does not look at `full_every` at all.
-/

namespace Savr

open LabelledRun PointerWalk Script

/-- The version is rebuilt from a full and at most `n` differentials. -/
def Within (history : List Version) (id : VersionId) (n : ℕ) : Prop :=
  ∃ chain, buildChain history id = some (.ok chain) ∧ chain.length ≤ n + 1

/-- A differential with this request goes on top of fewer than `n` others. -/
def CreateVersion.Capped (n : ℕ) (history : List Version) (req : CreateVersion) : Prop :=
  req.kind = .differential → ∃ p, req.parent = some p ∧ ∃ k < n, Within history p k

section History

variable {history history' : List Version} {id : VersionId} {n k : ℕ} {v : Version}

/-- A version is within the cap when a chain of at most that length leads to it. -/
theorem within_iff (distinct : DistinctIds history) :
    Within history id n ↔ ∃ chain, ChainTo history id chain ∧ chain.length ≤ n + 1 := by
  constructor
  · rintro ⟨chain, hbuild, hlen⟩
    exact ⟨chain.reverse, (buildChain_eq_ok_iff distinct).mp hbuild, by simpa using hlen⟩
  · rintro ⟨chain, hchain, hlen⟩
    refine ⟨chain.reverse, (buildChain_eq_ok_iff distinct).mpr ?_, by simpa using hlen⟩
    rwa [List.reverse_reverse]

theorem Within.le (h : Within history id k) (hle : k ≤ n) : Within history id n := by
  obtain ⟨chain, hbuild, hlen⟩ := h
  exact ⟨chain, hbuild, by omega⟩

/-- Chains stay as they are when the history grows. -/
theorem Within.mono (h : Within history id n) (distinct : DistinctIds history)
    (distinct' : DistinctIds history') (hsub : ∀ v ∈ history, v ∈ history') :
    Within history' id n := by
  obtain ⟨chain, hchain, hlen⟩ := (within_iff distinct).mp h
  refine (within_iff distinct').mpr ⟨chain, ?_, hlen⟩
  have hlookup : ∀ k, ∀ v ∈ chain, byId history k = some v → byId history' k = some v := by
    intro k v _ hk
    obtain ⟨hv, hid⟩ := (byId_eq_some_iff distinct).mp hk
    exact (byId_eq_some_iff distinct').mpr ⟨hsub v hv, hid⟩
  have hmap := WalkTo.map (f := fun v => v) hchain hlookup (fun _ _ => rfl) fun _ _ _ => rfl
  rwa [List.map_id'] at hmap

theorem within_of_full (distinct : DistinctIds history) (hv : v ∈ history)
    (hfull : v.kind = .full) : Within history v.id 0 := by
  refine (within_iff distinct).mpr ⟨[v], ?_, le_rfl⟩
  exact WalkTo.last ((byId_eq_some_iff distinct).mpr ⟨hv, rfl⟩) (by simp [Version.isFull, hfull])

theorem within_of_parent (distinct : DistinctIds history) (hv : v ∈ history)
    (hdiff : v.kind = .differential) {p : VersionId} (hp : v.parent = some p)
    (h : Within history p n) : Within history v.id (n + 1) := by
  obtain ⟨chain, hchain, hlen⟩ := (within_iff distinct).mp h
  refine (within_iff distinct).mpr ⟨v :: chain, ?_, by simpa using hlen⟩
  exact WalkTo.step ((byId_eq_some_iff distinct).mpr ⟨hv, rfl⟩)
    (by simp [Version.isFull, hdiff]) hp hchain

/-- What a capped request stores is rebuilt within the cap. -/
theorem CreateVersion.Capped.within (h : v.request.Capped n history)
    (distinct : DistinctIds history) (hv : v ∈ history) : Within history v.id n := by
  cases hkind : v.kind with
  | full => exact (within_of_full distinct hv hkind).le (Nat.zero_le n)
  | differential =>
      obtain ⟨p, hp, k, hk, hwithin⟩ := h hkind
      exact (within_of_parent distinct hv hkind hp hwithin).le hk

theorem capped_grows (n : ℕ) : Grows (CreateVersion.Capped n) := by
  intro history history' req distinct distinct' hsub h hkind
  obtain ⟨p, hp, k, hk, hwithin⟩ := h hkind
  exact ⟨p, hp, k, hk, hwithin.mono distinct distinct' hsub⟩

end History

/-! ### A covered device -/

/-- The device would build its next differential on a version that is no further from its
full than the counter says; while it is flagged it takes fulls only. -/
def Device.Covered (d : Device) (s : Server) (gameId : GameId) : Prop :=
  d.state.unconfirmed gameId = true ∨ ∀ h, d.parent gameId = some h →
    Within (s.db.listVersions d.accountId gameId) h (d.priorDiffs gameId)

theorem Device.Covered.congr {d d' : Device} {s : Server} {gameId : GameId}
    (h : d.Covered s gameId) (hacc : d'.accountId = d.accountId)
    (hsnap : d'.state.snapshots gameId = d.state.snapshots gameId)
    (hflag : d'.state.unconfirmed gameId = d.state.unconfirmed gameId)
    (hcount : d'.state.diffcount gameId = d.state.diffcount gameId) : d'.Covered s gameId := by
  rw [Covered, Device.parent, Device.priorDiffs, hacc, hsnap, hflag, hcount]
  exact h

theorem Device.covered_of_parent {d : Device} {s : Server} {gameId : GameId} {v : VersionId}
    (hparent : d.parent gameId = some v)
    (hwithin : Within (s.db.listVersions d.accountId gameId) v (d.priorDiffs gameId)) :
    d.Covered s gameId := by
  refine Or.inr fun h hh => ?_
  obtain rfl := Option.some.inj (hparent.symm.trans hh)
  exact hwithin

section General

variable [Blake3]

/-- Every version of the server is rebuilt within the cap, so would be what is in the
outbox, and the counter of every game covers its chain. -/
structure Machine.Capped (n : ℕ) (m : Machine) : Prop where
  server : m.server.Each (CreateVersion.Capped n)
  outbox : ∀ row ∈ m.device.state.outbox, ∀ p, row.payload = some p →
    p.createVersion.Capped n (m.server.db.listVersions m.device.accountId p.gameId)
  covered : ∀ gameId, m.device.Covered m.server gameId

section Device

variable {m m' : Machine} {n : ℕ} {gameId : GameId}

theorem Device.Covered.mono {d : Device} {s s' : Server} (h : d.Covered s gameId)
    (sound : s.Sound) (sound' : s'.Sound) (hle : s.Le s') : d.Covered s' gameId := by
  refine h.imp_right fun hwithin h hparent => ?_
  exact (hwithin h hparent).mono (sound.wf.distinctIds _ _) (sound'.wf.distinctIds _ _)
    fun v hv => hle.listVersions hv

/-- A device whose state has not changed, on a server that has only gained. -/
theorem Machine.Capped.mono (h : m.Capped n) (server : m'.server.Each (CreateVersion.Capped n))
    (hstate : m'.device.state = m.device.state)
    (hacc : m'.device.accountId = m.device.accountId) (hle : m.server.Le m'.server) :
    m'.Capped n := by
  refine ⟨server, fun row hrow p hp => ?_, fun g => ?_⟩
  · rw [hacc]
    rw [hstate] at hrow
    exact (capped_grows n).le h.server.sound server.sound hle (h.outbox row hrow p hp)
  · exact ((h.covered g).mono h.server.sound server.sound hle).congr hacc (by rw [hstate])
      (by rw [hstate]) (by rw [hstate])

variable {job : BackupJob} {env : BackupEnv} {p : Packed}

/-- A differential is packed by a device that is not flagged, on its local head. -/
theorem packBackup_differential_state {d : Device} (hp : packBackup d job env = some p)
    (hkind : p.create.kind = .differential) :
    d.state.unconfirmed job.gameId = false ∧ d.priorDiffs job.gameId < env.fullEvery ∧
      ∃ h, d.parent job.gameId = some h ∧ p.create.parent = some h := by
  have hcreate : p.create.kind = d.backupKind env.fullEvery job.gameId := by
    unfold packBackup at hp
    split at hp
    · cases hp
    · obtain ⟨⟨changed, deleted⟩, -, rfl⟩ := Option.map_eq_some_iff.mp hp
      rfl
  rw [hcreate, Device.backupKind] at hkind
  split at hkind
  · cases hkind
  · rename_i hnot
    simp only [Bool.or_eq_true, not_or, decide_eq_true_eq, not_le, Bool.not_eq_true,
      Option.isNone_eq_false_iff, Option.isSome_iff_exists] at hnot
    obtain ⟨⟨⟨h, hparent⟩, hbelow⟩, hflag⟩ := hnot
    exact ⟨hflag, hbelow, h, hparent, (packBackup_eq_some hp).2.trans hparent⟩

/-- What is packed below the cap is capped. -/
theorem Machine.Capped.packed (h : m.Capped n) (hp : packBackup m.device job env = some p)
    (below : p.create.kind = .differential → m.device.priorDiffs job.gameId < n) :
    p.create.Capped n (m.server.db.listVersions m.device.accountId job.gameId) := by
  intro hkind
  obtain ⟨hflag, -, head, hhead, hparent⟩ := packBackup_differential_state hp hkind
  refine ⟨head, hparent, _, below hkind, ?_⟩
  exact (h.covered job.gameId).resolve_left (by simp [hflag]) head hhead

/-- The counter after the bookkeeping of an answered backup: a conflict leaves it. -/
def settledCount (p : Packed) (prior : ℕ) : Advance → ℕ
  | .fastForward _ => nextDiffcount p.create.kind prior
  | .conflict _ _ => prior

/-- Recording an answered backup. -/
theorem Machine.Capped.settleBackup (h : m.Capped n) {advance : Advance}
    (hwithin : Within (m.server.db.listVersions m.device.accountId job.gameId)
      advance.version.id (settledCount p (m.device.priorDiffs job.gameId) advance))
    {d : Device} (hstate : m.device.state = d.state) :
    (m.run (settleBackup d job.gameId p env advance)).Capped n := by
  have hprior : d.priorDiffs job.gameId = m.device.priorDiffs job.gameId := by
    rw [Device.priorDiffs, Device.priorDiffs, hstate]
  cases advance with
  | fastForward version =>
      refine ⟨h.server, h.outbox, fun g => ?_⟩
      by_cases hg : g = job.gameId
      · subst hg
        refine Device.covered_of_parent (v := version.id) ?_ ?_
        · simp [Savr.settleBackup, confirmBackup, Write.apply, LocalState.putSnapshot,
            Device.parent]
        · have hcount : (m.run (Savr.settleBackup d job.gameId p env
              (.fastForward version))).device.priorDiffs job.gameId =
                nextDiffcount p.create.kind (m.device.priorDiffs job.gameId) := by
            rw [← hprior]
            simp [Savr.settleBackup, confirmBackup, Write.apply, Device.priorDiffs]
          rw [hcount]
          exact hwithin
      · refine (h.covered g).congr rfl ?_ ?_ ?_
        · simp [Savr.settleBackup, confirmBackup, Write.apply, LocalState.putSnapshot, hg]
        · simp [Savr.settleBackup, confirmBackup, Write.apply, LocalState.putSnapshot, hg]
        · simp [Savr.settleBackup, confirmBackup, Write.apply, LocalState.putSnapshot, hg]
  | conflict head incoming =>
      refine ⟨h.server, h.outbox, fun g => ?_⟩
      by_cases hg : g = job.gameId
      · subst hg
        refine Device.covered_of_parent (v := incoming.id) ?_ hwithin
        simp [Savr.settleBackup, recordBranch, Write.apply, LocalState.putSnapshot, Device.parent]
      · refine (h.covered g).congr rfl ?_ ?_ rfl
        · simp [Savr.settleBackup, recordBranch, Write.apply, LocalState.putSnapshot, hg]
        · simp [Savr.settleBackup, recordBranch, Write.apply, LocalState.putSnapshot, hg]

/-- Queueing a backup that is capped. -/
theorem Machine.Capped.queueBackup (h : m.Capped n)
    (capped : p.create.Capped n (m.server.db.listVersions m.device.accountId job.gameId)) :
    (m.run (queueBackup job.gameId p env)).Capped n := by
  refine ⟨h.server, fun row hrow q hq => ?_, fun g => ?_⟩
  · change row ∈ m.device.state.outbox.filter _ ++ [_] at hrow
    rcases List.mem_append.mp hrow with hrow | hrow
    · exact h.outbox row (List.mem_of_mem_filter hrow) q hq
    · obtain rfl := List.mem_singleton.mp hrow
      obtain rfl := Option.some.inj hq
      exact capped
  · by_cases hg : g = job.gameId
    · subst hg
      exact Or.inl (by simp [Savr.queueBackup, Write.apply])
    · refine (h.covered g).congr rfl ?_ ?_ rfl
      · simp [Savr.queueBackup, Write.apply, LocalState.putSnapshot, LocalState.enqueueOutbox, hg]
      · simp [Savr.queueBackup, Write.apply, LocalState.putSnapshot, LocalState.enqueueOutbox, hg]

/-- The chain of a version the device would build on is shorter than the counter says: one
more differential is covered without counting it. -/
def Device.Slack (d : Device) (s : Server) (gameId : GameId) (parent : Option VersionId) : Prop :=
  ∀ h, parent = some h → ∃ k < d.priorDiffs gameId,
    Within (s.db.listVersions d.accountId gameId) h k

/-- An upload that ends in a conflict did not declare the head as its parent. -/
theorem uploadVersion_conflict (sound : m.server.Sound) {fault : Fault} {create : CreateVersion}
    {archivePath : Blake3Hash} {draw : Draw}
    (fresh : m.FreshFor (uploadVersion m fault gameId create archivePath draw).1)
    {head : Option Version} {incoming : Version}
    (hreply : (uploadVersion m fault gameId create archivePath draw).2 =
      some (.conflict head incoming)) :
    m.server.db.head m.device.accountId gameId ≠ create.parent := by
  intro hparent
  have hdelivers := ((uploadVersion_answered_iff sound fresh).mp ⟨_, hreply⟩).1
  have hfault : fault ≠ .postReply := by
    rintro rfl
    cases hdelivers
  rcases (uploadVersion_inOrder sound hparent hfault fresh).1 with ⟨hnone, -⟩ | ⟨v, hv, -⟩
  · rw [hreply] at hnone
    cases hnone
  · rw [hreply] at hv
    cases hv

/-- An upload is answered with a conflict only where the head is not the parent. -/
theorem Packed.upload_conflict (sound : m.server.Sound)
    (fresh : m.FreshFor (p.upload m gameId env).1) {head : Option Version} {incoming : Version}
    (hreply : (p.upload m gameId env).2 = some (.conflict head incoming)) :
    m.server.db.head m.device.accountId gameId ≠ p.create.parent := by
  unfold Packed.upload at fresh hreply
  split at hreply
  · rename_i hauth
    rw [if_pos hauth] at fresh
    exact uploadVersion_conflict sound fresh hreply
  · cases hreply

/-- What a backup must not do: pack a differential when the counter is at the cap, or one
that ends in a conflict, unless there is slack. -/
def Device.BackupCovered (d : Device) (s : Server) (n : ℕ) (job : BackupJob) (env : BackupEnv) :
    Prop :=
  ∀ p, packBackup d job env = some p → p.create.kind = .differential →
    d.priorDiffs job.gameId < n ∧
      (env.authenticated = true →
        env.fault.delivers (s.blobExists p.create.blobHash) = true →
        s.db.head d.accountId job.gameId ≠ d.parent job.gameId →
        d.Slack s job.gameId (d.parent job.gameId))

/-- How far the version of an answered backup is from its full. -/
theorem within_settled {s : Server} (hcovered : m.device.Covered m.server job.gameId)
    (hp : packBackup m.device job env = some p) {advance : Advance}
    (hstored : advance.version ∈ s.db.listVersions m.device.accountId job.gameId)
    (hreq : advance.version.request = p.create)
    (distinct : DistinctIds (s.db.listVersions m.device.accountId job.gameId))
    (grows : ∀ {head k}, Within (m.server.db.listVersions m.device.accountId job.gameId) head k →
      Within (s.db.listVersions m.device.accountId job.gameId) head k)
    (slack : p.create.kind = .differential → ∀ head incoming, advance = .conflict head incoming →
      m.device.Slack m.server job.gameId (m.device.parent job.gameId)) :
    Within (s.db.listVersions m.device.accountId job.gameId) advance.version.id
      (settledCount p (m.device.priorDiffs job.gameId) advance) := by
  cases hkind : p.create.kind with
  | full =>
      have hfull : advance.version.kind = .full :=
        (congrArg CreateVersion.kind hreq).trans hkind
      exact (within_of_full distinct hstored hfull).le (Nat.zero_le _)
  | differential =>
      have hdiff : advance.version.kind = .differential :=
        (congrArg CreateVersion.kind hreq).trans hkind
      obtain ⟨hflag, -, head, hhead, hparent⟩ := packBackup_differential_state hp hkind
      have hvparent : advance.version.parent = some head :=
        (congrArg CreateVersion.parent hreq).trans hparent
      have hwithin := hcovered.resolve_left (by simp [hflag]) head hhead
      cases advance with
      | fastForward version =>
          have hcount : settledCount p (m.device.priorDiffs job.gameId) (.fastForward version) =
              m.device.priorDiffs job.gameId + 1 := by
            simp [settledCount, nextDiffcount, hkind]
          rw [hcount]
          exact within_of_parent distinct hstored hdiff hvparent (grows hwithin)
      | conflict old incoming =>
          obtain ⟨k, hk, hshort⟩ := slack hkind old incoming rfl head hhead
          exact (within_of_parent distinct hstored hdiff hvparent (grows hshort)).le hk

/-- **A backup keeps the cap.** -/
theorem Machine.Capped.runBackup (h : m.Capped n) (job : BackupJob) (env : BackupEnv)
    (covered : m.device.BackupCovered m.server n job env)
    (fresh : m.FreshFor (runBackup m job env).2) : (m.run (runBackup m job env).2).Capped n := by
  rcases runBackup_cases m job env with
    ⟨-, heq⟩ | ⟨p, hp, ⟨advance, hreply, heq⟩ | ⟨hreply, heq⟩⟩
  · rw [heq]
    exact h
  all_goals
    rw [heq, Machine.freshFor_append] at fresh
    rw [heq, Machine.run_append]
    obtain ⟨hstate, hacc, -, hle⟩ := (always_packed h.server.sound p job.gameId env fresh.1).finish
    have hpacked := h.packed hp fun hkind => (covered p hp hkind).1
    have hserver : (m.run (p.pack :: (p.upload (m.apply p.pack) job.gameId
        env).1)).server.Each (CreateVersion.Capped n) := by
      refine h.server.run (capped_grows n) fresh.1 hpacked fun g req id now hmem => ?_
      rcases List.mem_cons.mp hmem with hmem | hmem
      · cases hmem
      · rcases p.mem_upload hmem with ⟨body, heq'⟩ | heq'
        · cases heq'
        · cases heq'
          exact ⟨rfl, rfl⟩
    have hdevice : (m.run (p.pack :: (p.upload (m.apply p.pack) job.gameId env).1)).Capped n :=
      h.mono hserver hstate hacc hle
  · have hstored := Packed.upload_stored (m := m.apply p.pack) h.server.sound fresh.1.2 hreply
    refine hdevice.settleBackup ?_ hstate
    rw [show (m.run _).device.accountId = m.device.accountId from hacc]
    have hprior : (m.run (p.pack :: (p.upload (m.apply p.pack) job.gameId
        env).1)).device.priorDiffs job.gameId = m.device.priorDiffs job.gameId := by
      rw [Device.priorDiffs, Packed.upload_state, Device.priorDiffs]
    rw [hprior]
    refine within_settled (h.covered job.gameId) hp hstored.1 hstored.2
      (hserver.sound.wf.distinctIds _ _) (fun hwithin => hwithin.mono
        (h.server.sound.wf.distinctIds _ _) (hserver.sound.wf.distinctIds _ _)
        fun v hv => hle.listVersions hv) fun hkind head incoming hconflict => ?_
    subst hconflict
    have hanswered := (Packed.upload_answered_iff h.server.sound
      (packBackup_archive hp).1 fresh.1.2).mp ⟨_, hreply⟩
    refine (covered p hp hkind).2 hanswered.1 hanswered.2.1 ?_
    rw [← (packBackup_eq_some hp).2]
    exact Packed.upload_conflict (m := m.apply p.pack) h.server.sound fresh.1.2 hreply
  · refine hdevice.queueBackup ?_
    rw [show (m.run _).device.accountId = m.device.accountId from hacc]
    exact (capped_grows n).le h.server.sound hserver.sound hle hpacked

end Device

/-! ### Draining the outbox -/

/-- Flags and counters are the same; heads may differ. -/
structure SameCounters (d d' : Device) : Prop where
  account : d'.accountId = d.accountId
  flags : d'.state.unconfirmed = d.state.unconfirmed
  counters : d'.state.diffcount = d.state.diffcount

/-- What a drain must not do: move an unflagged device to a differential from its outbox,
unless there is slack. -/
def Device.EntryCovered (d : Device) (s : Server) (p : OutboxPayload) : Prop :=
  p.createVersion.kind = .differential →
    d.state.unconfirmed p.gameId = true ∨ d.Slack s p.gameId p.createVersion.parent

section Retry

variable {m : Machine} {n : ℕ} {now : Timestamp}

/-- An entry of the outbox stays covered while the counters stay and the server grows. -/
theorem Device.EntryCovered.mono {d d' : Device} {s s' : Server} {p : OutboxPayload}
    (h : d.EntryCovered s p) (same : SameCounters d d') (sound : s.Sound) (sound' : s'.Sound)
    (hle : s.Le s') : d'.EntryCovered s' p := by
  intro hkind
  rw [same.flags]
  refine (h hkind).imp_right fun slack head hhead => ?_
  obtain ⟨k, hk, hwithin⟩ := slack head hhead
  rw [Device.priorDiffs, same.counters, same.account]
  exact ⟨k, hk, hwithin.mono (sound.wf.distinctIds _ _) (sound'.wf.distinctIds _ _)
    fun v hv => hle.listVersions hv⟩

omit [Blake3] in
/-- Moving the head to a version that the counter covers. -/
theorem Device.covered_setLocalHead {d d' : Device} {s : Server} {gameId : GameId} {v : VersionId}
    (same : SameCounters d d')
    (hsnap : d'.state.snapshots = (d.state.setLocalHead gameId v).snapshots)
    (hwithin : d.state.unconfirmed gameId = true ∨
      Within (s.db.listVersions d.accountId gameId) v (d.priorDiffs gameId)) :
    d'.Covered s gameId := by
  rw [Device.Covered, same.flags, same.account, Device.priorDiffs, same.counters]
  refine hwithin.imp_right fun hwithin h hh => ?_
  have hparent : d'.parent gameId = (d.state.snapshots gameId).bind fun _ => some v := by
    rw [Device.parent, hsnap]
    cases hs : d.state.snapshots gameId <;> simp [LocalState.setLocalHead, hs]
  rw [hparent] at hh
  obtain ⟨-, -, heq⟩ := Option.bind_eq_some_iff.mp hh
  obtain rfl := Option.some.inj heq
  exact hwithin

omit [Blake3] in
/-- How far the version of an answered entry is from its full. -/
theorem Device.EntryCovered.within {d : Device} {s : Server} {p : OutboxPayload} {v : Version}
    (h : d.EntryCovered s p)
    (capped : p.createVersion.Capped n (s.db.listVersions d.accountId p.gameId))
    (hstored : v ∈ s.db.listVersions d.accountId p.gameId) (hreq : v.request = p.createVersion)
    (distinct : DistinctIds (s.db.listVersions d.accountId p.gameId)) :
    d.state.unconfirmed p.gameId = true ∨
      Within (s.db.listVersions d.accountId p.gameId) v.id (d.priorDiffs p.gameId) := by
  cases hkind : v.kind with
  | full => exact Or.inr ((within_of_full distinct hstored hkind).le (Nat.zero_le _))
  | differential =>
      have hdiff : p.createVersion.kind = .differential := hreq ▸ hkind
      obtain ⟨head, hparent, -⟩ := capped hdiff
      refine (h hdiff).imp_right fun slack => ?_
      obtain ⟨k, hk, hshort⟩ := slack head hparent
      exact (within_of_parent distinct hstored hkind
        ((congrArg CreateVersion.parent hreq).trans hparent) hshort).le hk

/-- **One entry of a drain.** -/
theorem Machine.Capped.retryItem (h : m.Capped n) {item : OutboxRow} {env : RetryEnv}
    (capped : ∀ p, item.payload = some p →
      p.createVersion.Capped n (m.server.db.listVersions m.device.accountId p.gameId))
    (covered : ∀ p, item.payload = some p → env.fault.delivers true = true →
      m.device.EntryCovered m.server p)
    (fresh : m.FreshFor (retryItem m now item env)) :
    (m.run (retryItem m now item env)).Capped n ∧
      SameCounters m.device (m.run (retryItem m now item env)).device := by
  rcases retryItem_cases m now item env with
    ⟨hnone, heq⟩ | ⟨p, hp, ⟨advance, hreply, marks, hmarks, heq⟩ | ⟨hreply, next, heq⟩⟩
  · rw [heq]
    refine ⟨⟨h.server, fun row hrow => h.outbox row (List.mem_of_mem_filter hrow), h.covered⟩, ?_⟩
    exact ⟨rfl, rfl, rfl⟩
  · have hfresh : m.FreshFor (p.upload m env).1 := by
      rw [heq, List.append_assoc] at fresh
      exact (Machine.freshFor_append.mp fresh).1
    obtain ⟨-, hle, -⟩ := Machine.run_sound h.server.sound hfresh
    have hserver := h.server.uploadVersion (capped_grows n) hfresh (capped p hp)
    have hsent : (⟨m.device, (m.run (p.upload m env).1).server⟩ : Machine).Capped n :=
      h.mono hserver rfl rfl hle
    have hstored := uploadVersion_stored h.server.sound hfresh hreply
    have hdelivered := ((uploadVersion_answered_iff h.server.sound hfresh).mp ⟨advance, hreply⟩).1
    have hentry := (covered p hp (Fault.delivers_true hdelivered)).mono ⟨rfl, rfl, rfl⟩
      h.server.sound hserver.sound hle
    have hcapped := (capped_grows n).le h.server.sound hserver.sound hle (capped p hp)
    have distinct := hserver.sound.wf.distinctIds m.device.accountId p.gameId
    obtain ⟨at_, hrun⟩ := p.run_answered m env item.id advance.version.id hmarks
    rw [heq, hrun]
    refine ⟨⟨hsent.server, ?_, fun g => ?_⟩, rfl, rfl, rfl⟩
    · exact fun row hrow => hsent.outbox row (List.mem_of_mem_filter hrow)
    · by_cases hg : g = p.gameId
      · subst hg
        exact Device.covered_setLocalHead (d := m.device) ⟨rfl, rfl, rfl⟩ rfl
          (hentry.within hcapped hstored.1 hstored.2 distinct)
      · exact (hsent.covered g).congr rfl (Function.update_of_ne hg _ _) rfl rfl
  · have hfresh : m.FreshFor (p.upload m env).1 := by
      rw [heq] at fresh
      exact (Machine.freshFor_append.mp fresh).1
    obtain ⟨-, hle, -⟩ := Machine.run_sound h.server.sound hfresh
    have hsent : (⟨m.device, (m.run (p.upload m env).1).server⟩ : Machine).Capped n :=
      h.mono (h.server.uploadVersion (capped_grows n) hfresh (capped p hp)) rfl rfl hle
    rw [heq, p.run_unanswered]
    refine ⟨⟨hsent.server, fun row hrow q hq => ?_, hsent.covered⟩, rfl, rfl, rfl⟩
    obtain ⟨row₀, hrow₀, rfl⟩ := List.mem_map.mp hrow
    refine hsent.outbox row₀ hrow₀ q ?_
    split at hq <;> exact hq

/-- The loop over the due entries. -/
theorem Machine.Capped.retryLoop {env : Uuid → RetryEnv} {items : List OutboxRow}
    (h : m.Capped n)
    (capped : ∀ item ∈ items, ∀ p, item.payload = some p →
      p.createVersion.Capped n (m.server.db.listVersions m.device.accountId p.gameId))
    (covered : ∀ item ∈ items, ∀ p, item.payload = some p →
      (env item.id).fault.delivers true = true → m.device.EntryCovered m.server p)
    (fresh : m.FreshFor (retryLoop now env m items)) :
    (m.run (retryLoop now env m items)).Capped n := by
  induction items generalizing m with
  | nil => exact h
  | cons item items ih =>
      rw [Savr.retryLoop, Machine.freshFor_append] at fresh
      rw [Savr.retryLoop, Machine.run_append]
      obtain ⟨hitem, same⟩ := h.retryItem (capped item (by simp)) (covered item (by simp)) fresh.1
      obtain ⟨-, hle, hacc⟩ := Machine.run_sound h.server.sound fresh.1
      refine ih hitem (fun i hi p hp => ?_) (fun i hi p hp hfault => ?_) fresh.2
      · rw [hacc]
        exact (capped_grows n).le h.server.sound hitem.server.sound hle
          (capped i (by simp [hi]) p hp)
      · exact (covered i (by simp [hi]) p hp hfault).mono same h.server.sound
          hitem.server.sound hle

end Retry

/-! ### Whole runs -/

/-- The `full_every` of a pre-restore backup: `u32::MAX`. -/
def preRestoreFullEvery : ℕ := 2 ^ 32 - 1

/-- Every backup is an ordinary one, with the fixed `full_every`, or one before a
restore. -/
def UsesFullEvery (n : ℕ) (ev : Event) : Prop :=
  match ev.op with
  | .backup _ env => env.fullEvery = n ∨ env.fullEvery = preRestoreFullEvery
  | _ => True

/-- **What keeps the counters covering the chains**, as a condition on the state before
the step. -/
def KeepsCover (n : ℕ) (w : World) (ev : Event) : Prop :=
  let d := w.devices ev.device
  match ev.op with
  | .backup job env => d.BackupCovered w.server n job env
  | .retry authenticated now env =>
      authenticated = true → ∀ item ∈ d.state.dueOutbox now, ∀ p, item.payload = some p →
        (env item.id).fault.delivers true = true → d.EntryCovered w.server p
  | .restore gameId target =>
      d.state.unconfirmed gameId = true ∨
        ∀ chain, buildChain (w.server.db.listVersions d.accountId gameId) target =
          some (.ok chain) → chain.length ≤ d.priorDiffs gameId + 1
  | .resolve _ _ _ _ _ => True

section World

variable {w w' w₀ : World} {ev : Event} {trace : List Event} {n : ℕ}

/-- A restore moves the device to its target. -/
theorem Machine.Capped.runRestore {m : Machine} (h : m.Capped n) (gameId : GameId)
    (target : VersionId)
    (covered : m.device.state.unconfirmed gameId = true ∨
      ∀ chain, buildChain (m.server.db.listVersions m.device.accountId gameId) target =
        some (.ok chain) → chain.length ≤ m.device.priorDiffs gameId + 1) :
    (m.run (runRestore m gameId target)).Capped n := by
  have distinct := h.server.sound.wf.distinctIds m.device.accountId gameId
  unfold Savr.runRestore
  split
  · rename_i chain hchain
    split
    · rename_i v _ hlast
      obtain ⟨-, before, last, rfl, hid⟩ :=
        ((buildChain_eq_ok_iff distinct).mp hchain).shape distinct
      obtain rfl : last = v := by simpa using hlast
      refine ⟨h.server, h.outbox, fun g => ?_⟩
      by_cases hg : g = gameId
      · subst hg
        rcases covered with hflag | hshort
        · exact Or.inl hflag
        · refine Device.covered_of_parent (v := last.id) ?_ ⟨_, hid ▸ hchain, hshort _ hchain⟩
          simp [Write.apply, LocalState.putSnapshot, Device.parent]
      · refine (h.covered g).congr rfl ?_ rfl rfl
        simp [Write.apply, LocalState.putSnapshot, hg]
    · exact h
  · exact h

/-- **Every operation that keeps the cover keeps the cap.** -/
theorem Machine.Capped.script (h : (w.machine ev.device).Capped n) (cover : KeepsCover n w ev)
    (fresh : (w.machine ev.device).FreshFor (ev.op.script (w.machine ev.device))) :
    ((w.machine ev.device).run (ev.op.script (w.machine ev.device))).Capped n := by
  unfold KeepsCover at cover
  cases hop : ev.op with
  | backup job env =>
      rw [hop] at fresh
      simp only [hop] at cover
      exact h.runBackup job env cover fresh
  | retry authenticated now env =>
      rw [hop] at fresh
      simp only [hop] at cover
      simp only [Op.script, retryOutbox] at fresh ⊢
      split
      · rename_i hauth
        rw [if_pos hauth] at fresh
        refine h.retryLoop (fun item hitem => h.outbox item ?_) (cover hauth) fresh
        rw [LocalState.dueOutbox, RankedList.mem_sortBy] at hitem
        exact List.mem_of_mem_filter hitem
      · exact h
  | restore gameId target =>
      simp only [hop] at cover
      exact h.runRestore gameId target cover
  | resolve gameId winner keepBoth id now =>
      refine h.mono ?_ rfl rfl (Server.resolve_le h.server.sound)
      exact h.server.of_versions (Server.resolve_sound h.server.sound)
        (Server.resolve_versions h.server.sound)

/-- One step of the world keeps every device's chains within the cap, if it completes and
the counters cover the chains before it. -/
theorem capped_step (h : ∀ d, (w.machine d).Capped n) (step : Step w ev w')
    (completes : Completes w ev) (cover : KeepsCover n w ev) (d : ℕ) :
    (w'.machine d).Capped n := by
  obtain ⟨k, -, fresh, rfl, -⟩ := step.performs
  have hacting := (h ev.device).script cover fresh
  have hle := (Machine.run_sound (h ev.device).server.sound fresh).2.1
  rw [Completes] at completes
  rw [completes]
  by_cases hd : d = ev.device
  · subst hd
    rw [World.perform_machine]
    exact hacting
  · rw [World.perform_machine_of_ne w hd]
    exact (h d).mono hacting.server rfl rfl hle

/-- In a new world there is nothing to cap. -/
theorem World.New.capped (new : w.New) (n d : ℕ) : (w.machine d).Capped n := by
  refine ⟨⟨new.sound, ?_⟩, ?_, ?_⟩
  · intro account gameId v hv
    rw [machine_server, new.fresh.listVersions_nil] at hv
    cases hv
  · simp [(new.devices d).outbox]
  · intro gameId
    refine Or.inr fun h hh => ?_
    simp [Device.parent, (new.devices d).snapshots] at hh

/-- **Restore chains are capped.**  In every run of any number of devices with a fixed
`full_every`, of complete backups, drains and restores in any order, whose steps keep the
counters covering the chains: every version that `build_chain` can rebuild has a chain of
at most `full_every + 1` versions. -/
theorem chains_capped (new : w₀.New)
    (run : Run (under Step fun w ev => Completes w ev ∧ UsesFullEvery n ev ∧ KeepsCover n w ev)
      w₀ trace w) {account : AccountId} {gameId : GameId} {target : VersionId}
    {chain : List Version}
    (hchain : buildChain (w.server.db.listVersions account gameId) target = some (.ok chain)) :
    chain.length ≤ n + 1 := by
  have hcapped : (w.machine 0).Capped n :=
    run.invariant (I := fun w => ∀ d, (w.machine d).Capped n)
      (fun _ _ _ h step d => capped_step h step.1 step.2.1 step.2.2.2 d)
      (fun d => new.capped n d) 0
  have distinct := hcapped.server.sound.wf.distinctIds account gameId
  have chainTo := (buildChain_eq_ok_iff distinct).mp hchain
  obtain ⟨-, before, last, rfl, rfl⟩ := chainTo.shape distinct
  have hlisted : last ∈ w.server.db.listVersions account gameId :=
    chainTo.mem distinct last (by simp)
  obtain ⟨chain, hbuild, hlen⟩ :=
    (hcapped.server.versions account gameId last hlisted).within distinct hlisted
  obtain rfl : before ++ [last] = chain :=
    Except.ok.inj (Option.some.inj (hchain.symm.trans hbuild))
  exact hlen

end World

end General

/-! ### A pre-restore backup at the cap -/

section Example

local instance capDigest : Blake3 := plainDigest

/-- The backup of a save that changes each time, under a given `full_every`. -/
def cappedBackup (fullEvery : ℕ) (now : Timestamp) : Op :=
  .backup exampleJob
    { exampleBackup (oneByteSave (UInt8.ofNat now)) true .none now with fullEvery := fullEvery }

/-- A chain from its length, which evaluates. -/
theorem exists_chain_of_length {versions : List Version} {target : VersionId} {k : ℕ}
    (h : ((buildChain versions target).bind Except.toOption).map List.length = some k) :
    ∃ chain, buildChain versions target = some (.ok chain) ∧ chain.length = k := by
  cases hr : buildChain versions target with
  | none => simp [hr] at h
  | some r =>
      cases r with
      | error e => simp [hr, Except.toOption] at h
      | ok chain => exact ⟨chain, rfl, by simpa [hr, Except.toOption] using h⟩

/-- With `full_every = 1`: a full, a differential, and the restore of the full with the
backup that comes before it. -/
def restoredAtCap : List (ℕ × Op) :=
  [(0, cappedBackup 1 1), (0, cappedBackup 1 2), (0, cappedBackup preRestoreFullEvery 3),
   (0, .restore 10 101)]

/-- The pre-restore backup is a differential on the differential: a chain of three
versions. -/
theorem pre_restore_backup_exceeds_cap :
    newWorld.New ∧
      Run (under Step fun w ev => Completes w ev ∧ UsesFullEvery 1 ev) newWorld
        (newWorld.events restoredAtCap) (newWorld.after restoredAtCap) ∧
      ∃ chain, buildChain ((newWorld.after restoredAtCap).server.db.listVersions 1 10) 103 =
        some (.ok chain) ∧ chain.length = 3 := by
  refine ⟨newWorld_new, World.run_after (by decide +kernel) ?_, ?_⟩
  · exact ⟨⟨rfl, Or.inl rfl⟩, ⟨rfl, Or.inl rfl⟩, ⟨rfl, Or.inr rfl⟩, ⟨rfl, trivial⟩, trivial⟩
  · exact exists_chain_of_length (by decide +kernel)

/-- Two ordinary backups stay within the cap. -/
theorem chains_capped_two_backups :
    ∃ chain, buildChain ((newWorld.after (restoredAtCap.take 2)).server.db.listVersions 1 10)
      102 = some (.ok chain) ∧ chain.length ≤ 2 := by
  obtain ⟨chain, hchain, -⟩ : ∃ chain, buildChain ((newWorld.after
      (restoredAtCap.take 2)).server.db.listVersions 1 10) 102 = some (.ok chain) ∧
        chain.length = 2 :=
    exists_chain_of_length (by decide +kernel)
  refine ⟨chain, hchain, ?_⟩
  have hfirst : KeepsCover 1 newWorld
      { device := 0, op := cappedBackup 1 1, performed := [], replies := [] } := by
    intro p hp hkind
    obtain ⟨-, -, h, hparent, -⟩ := packBackup_differential_state hp hkind
    have hnone : (newWorld.devices 0).parent 10 = none := by decide +kernel
    exact absurd (hnone.symm.trans hparent) (by simp)
  have hsecond : KeepsCover 1 (newWorld.after (restoredAtCap.take 1))
      { device := 0, op := cappedBackup 1 2, performed := [], replies := [] } := by
    intro p hp hkind
    have hcount : ((newWorld.after (restoredAtCap.take 1)).devices 0).priorDiffs 10 < 1 := by
      decide +kernel
    have hhead : (newWorld.after (restoredAtCap.take 1)).server.db.head 1 10 =
        ((newWorld.after (restoredAtCap.take 1)).devices 0).parent 10 := by
      decide +kernel
    exact ⟨hcount, fun _ _ hne => absurd hhead hne⟩
  have run : Run (under Step fun w ev => Completes w ev ∧ UsesFullEvery 1 ev ∧ KeepsCover 1 w ev)
      newWorld _ (newWorld.after (restoredAtCap.take 2)) :=
    World.run_after (by decide +kernel)
      ⟨⟨rfl, Or.inl rfl, hfirst⟩, ⟨rfl, Or.inl rfl, hsecond⟩, trivial⟩
  exact chains_capped newWorld_new run hchain

end Example

end Savr
