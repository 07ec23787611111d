import Savr.Core.PlainDigest
import Savr.Daemon.Actions

/-!
# The local diff base across crashes

A differential is packed against the files of the stored snapshot and declares the
version that snapshot names.  `Machine.BaseConsistent` is what makes this sound:
while the game is not flagged unconfirmed, the two agree.

`run_backup` performs its writes one by one.  `baseConsistent_always_iff` says when
the predicate holds at every point in between: always, except for a backup that is
queued over an unflagged base with a different content.  There `put_snapshot` comes
before the flag, so a crash between the two leaves new files under the old head.
-/

namespace Savr

open Script

namespace Machine

/-- The game is flagged unconfirmed, or its snapshot names no version, or the named
version has the snapshot's files. -/
def BaseConsistent (m : Machine) (gameId : GameId) : Prop :=
  ∀ snap, m.device.state.snapshots gameId = some snap →
    m.device.state.unconfirmed gameId = true ∨ snap.localHead = none ∨
      ∃ v ∈ m.server.db.listVersions m.device.accountId gameId,
        snap.localHead = some v.id ∧ v.files = snap.files

variable {m m' : Machine} {gameId : GameId}

/-- Only the snapshot, the flag and the server's history matter, and the history
may grow. -/
theorem BaseConsistent.mono (h : m.BaseConsistent gameId)
    (hsnap : m'.device.state.snapshots gameId = m.device.state.snapshots gameId)
    (hflag : m'.device.state.unconfirmed gameId = m.device.state.unconfirmed gameId)
    (hacc : m'.device.accountId = m.device.accountId) (hle : m.server.Le m'.server) :
    m'.BaseConsistent gameId := by
  intro snap hs
  rw [hsnap] at hs
  rw [hflag, hacc]
  rcases h snap hs with hflagged | hnone | ⟨v, hv, hhead, hfiles⟩
  · exact Or.inl hflagged
  · exact Or.inr (Or.inl hnone)
  · exact Or.inr (Or.inr ⟨v, hle.listVersions hv, hhead, hfiles⟩)

/-- A new snapshot is consistent exactly when one of the three cases applies to it. -/
theorem baseConsistent_putSnapshot {files : List FileEntry} {takenAt : Timestamp}
    {head : Option VersionId} :
    ({ m with device := (Write.putSnapshot gameId files takenAt head).apply m.device } :
        Machine).BaseConsistent gameId ↔
      m.device.state.unconfirmed gameId = true ∨ head = none ∨
        ∃ v ∈ m.server.db.listVersions m.device.accountId gameId,
          head = some v.id ∧ v.files = files := by
  unfold BaseConsistent
  simp [Write.apply, LocalState.putSnapshot]

/-- Flagging a game makes it consistent. -/
theorem baseConsistent_flagged (h : m.device.state.unconfirmed gameId = true) :
    m.BaseConsistent gameId :=
  fun _ _ => Or.inl h

end Machine

section Backup

variable [Blake3] {m : Machine} {job : BackupJob} {env : BackupEnv} {p : Packed}

/-- **Why the predicate matters.**  From a consistent state, a differential declares
a version that has exactly the files it was diffed against. -/
theorem differential_of_baseConsistent (base : m.BaseConsistent job.gameId)
    (hp : packBackup m.device job env = some p) (hkind : p.create.kind = .differential) :
    ∃ snap, m.device.state.snapshots job.gameId = some snap ∧
      ∃ v ∈ m.server.db.listVersions m.device.accountId job.gameId,
        p.create.parent = some v.id ∧ v.files = snap.files := by
  have hcreate : p.create.kind = m.device.backupKind env.fullEvery job.gameId ∧
      p.create.parent = m.device.parent job.gameId := by
    unfold packBackup at hp
    split at hp
    · cases hp
    · obtain ⟨⟨changed, deleted⟩, -, rfl⟩ := Option.map_eq_some_iff.mp hp
      exact ⟨rfl, rfl⟩
  rw [hcreate.1, Device.backupKind] at hkind
  split at hkind
  · cases hkind
  · rename_i hnot
    simp only [Bool.or_eq_true, not_or, Option.isNone_iff_eq_none] at hnot
    obtain ⟨⟨hparent, -⟩, hflag⟩ := hnot
    rw [hcreate.2]
    unfold Device.parent at hparent ⊢
    cases hs : m.device.state.snapshots job.gameId with
    | none => simp [hs] at hparent
    | some snap =>
        simp only [hs, Option.bind_some] at hparent
        rcases base snap hs with hflagged | hnone | ⟨v, hv, hhead, hfiles⟩
        · exact absurd hflagged hflag
        · exact absurd hnone hparent
        · exact ⟨snap, rfl, v, hv, hhead, hfiles⟩

/-- A packed backup declares the current save. -/
theorem packBackup_eq_some {d : Device} (hp : packBackup d job env = some p) :
    p.create.files = (Snapshot.build job.gameId env.saves env.takenAt).files ∧
      p.create.parent = d.parent job.gameId := by
  unfold packBackup at hp
  split at hp
  · cases hp
  · obtain ⟨⟨changed, deleted⟩, -, rfl⟩ := Option.map_eq_some_iff.mp hp
    exact ⟨rfl, rfl⟩

/-- What `run_backup` packs declares itself. -/
theorem packBackup_archive {d : Device} {job : BackupJob} {env : BackupEnv} {p : Packed}
    (hp : packBackup d job env = some p) :
    p.create.blobHash = Blake3.ofArchive p.archive ∧
      p.archive.metadata.gameId = job.gameId ∧ p.archive.metadata.files = p.create.files := by
  unfold packBackup at hp
  split at hp
  · cases hp
  · obtain ⟨⟨changed, deleted⟩, -, rfl⟩ := Option.map_eq_some_iff.mp hp
    exact ⟨rfl, rfl, rfl⟩

/-- Until the bookkeeping starts, the device's state is as it was and the server has
only gained. -/
theorem always_packed (sound : m.server.Sound) (p : Packed) (gameId : GameId) (env : BackupEnv)
    (fresh : m.FreshFor (p.pack :: (p.upload (m.apply p.pack) gameId env).1)) :
    Always Machine.apply (fun m' => m'.device.state = m.device.state ∧
      m'.device.accountId = m.device.accountId ∧ m'.server.Sound ∧ m.server.Le m'.server)
      m (p.pack :: (p.upload (m.apply p.pack) gameId env).1) := by
  have hstate : Always Machine.apply (fun m' => m'.device.state = m.device.state) m
      (p.pack :: (p.upload (m.apply p.pack) gameId env).1) := by
    rw [always_cons]
    refine ⟨rfl, (Machine.always_requests_device (p.upload_requests _ _ _)).imp ?_⟩
    intro m' hdev
    rw [hdev]
    rfl
  refine (hstate.and (Machine.always_sound sound fresh)).imp ?_
  rintro m' ⟨hst, hsound, hle, hacc⟩
  exact ⟨hst, hacc, hsound, hle⟩

/-- Recording an answer keeps the base consistent at every point. -/
theorem always_settled (base : m.BaseConsistent job.gameId) {advance : Advance}
    (hstored : advance.version ∈ m.server.db.listVersions m.device.accountId job.gameId)
    (hreq : advance.version.request = p.create) (d : Device) :
    Always Machine.apply (fun m' => m'.BaseConsistent job.gameId) m
      (settleBackup d job.gameId p env advance) := by
  obtain ⟨counters, hcounters, heq⟩ := settleBackup_eq d job.gameId p env advance
  have hfiles : advance.version.files = p.create.files := congrArg CreateVersion.files hreq
  rw [heq, List.append_assoc, List.cons_append, List.cons_append, List.nil_append, always_cons]
  refine ⟨base, ?_⟩
  -- from here on the snapshot names the stored version, whatever the flag says
  refine (Always.of_step (P := fun m' => m'.server = m.server ∧
      m'.device.accountId = m.device.accountId ∧
      ∃ takenAt, m'.device.state.snapshots job.gameId =
        some ⟨p.create.files, takenAt, some advance.version.id⟩) ?_ ?_).imp ?_
  · exact ⟨rfl, rfl, p.takenAt, by simp [Write.apply, LocalState.putSnapshot]⟩
  · rintro m' ⟨hserver, hacc, hsnap⟩ a ha
    rcases List.mem_cons.mp ha with rfl | ha
    · exact ⟨hserver, hacc, hsnap⟩
    · rcases List.mem_append.mp ha with ha | ha
      · obtain ⟨w, hw, rfl⟩ := List.mem_map.mp ha
        rcases hcounters w hw with ⟨g, n, rfl⟩ | ⟨t, rfl⟩
        · exact ⟨hserver, hacc, hsnap⟩
        · exact ⟨hserver, hacc, hsnap⟩
      · obtain rfl := List.mem_singleton.mp ha
        exact ⟨hserver, hacc, hsnap⟩
  · rintro m' ⟨hserver, hacc, takenAt, hsnap⟩ snap hs
    rw [hsnap] at hs
    obtain rfl := Option.some.inj hs
    rw [hserver, hacc]
    exact Or.inr (Or.inr ⟨advance.version, hstored, rfl, hfiles⟩)

/-- Queueing keeps the base consistent at every point exactly when putting the new
files under the old head does. -/
theorem always_queued_iff (base : m.BaseConsistent job.gameId) :
    Always Machine.apply (fun m' => m'.BaseConsistent job.gameId) m
        (queueBackup job.gameId p env) ↔
      m.device.state.unconfirmed job.gameId = true ∨ p.create.parent = none ∨
        ∃ v ∈ m.server.db.listVersions m.device.accountId job.gameId,
          p.create.parent = some v.id ∧ v.files = p.create.files := by
  simp only [queueBackup, always_cons, always_nil, Machine.apply_write]
  constructor
  · rintro ⟨-, -, hput, -⟩
    exact Machine.baseConsistent_putSnapshot.mp hput
  · intro hput
    refine ⟨base, base.mono rfl rfl rfl (Server.Le.refl _),
      Machine.baseConsistent_putSnapshot.mpr hput, ?_⟩
    exact Machine.baseConsistent_flagged (by simp [Write.apply])

/-- Over a consistent base, the version the old snapshot names has the new files
exactly when the files did not change. -/
theorem samefiles_iff {s : Server} {gameId : GameId} (base : m.BaseConsistent gameId)
    (sound : s.Sound) (hle : m.server.Le s) {files : List FileEntry} :
    (m.device.state.unconfirmed gameId = true ∨ m.device.parent gameId = none ∨
        ∃ v ∈ s.db.listVersions m.device.accountId gameId,
          m.device.parent gameId = some v.id ∧ v.files = files) ↔
      m.device.state.unconfirmed gameId = true ∨ m.device.parent gameId = none ∨
        ∃ snap, m.device.state.snapshots gameId = some snap ∧ snap.files = files := by
  by_cases hflag : m.device.state.unconfirmed gameId = true
  · simp [hflag]
  refine or_congr_right ?_
  unfold Device.parent
  cases hs : m.device.state.snapshots gameId with
  | none => simp
  | some snap =>
      simp only [Option.bind_some, Option.some.injEq, exists_eq_left']
      rcases base snap hs with hflagged | hnone | ⟨v, hv, hhead, hvfiles⟩
      · exact absurd hflagged hflag
      · simp [hnone]
      · refine or_congr_right ⟨?_, ?_⟩
        · rintro ⟨w, hw, hwhead, rfl⟩
          -- one id, one version
          have hid : v.id = w.id := Option.some.inj (hhead.symm.trans hwhead)
          obtain ⟨vrow, hvrow, -, -, rfl⟩ := Db.mem_listVersions.mp (hle.listVersions hv)
          obtain ⟨wrow, hwrow, -, -, rfl⟩ := Db.mem_listVersions.mp hw
          rw [← hvfiles, List.inj_on_of_nodup_map sound.wf.versionIds hvrow hwrow hid]
        · rintro rfl
          exact ⟨v, hle.listVersions hv, hhead, hvfiles⟩

/-- The device is paired, nothing of the upload gets lost, and the server accepts the
version. -/
def Packed.Online (m : Machine) (gameId : GameId) (p : Packed) (env : BackupEnv) : Prop :=
  env.authenticated = true ∧
    env.fault.delivers (m.server.blobExists p.create.blobHash) = true ∧
    m.server.Accepts m.device.accountId gameId p.create

/-- **Crash consistency of the local diff base.**  From a consistent state, every
point between two writes of `run_backup` is consistent if and only if there is
nothing to back up, or the backup is online, or the game was already flagged, or the
snapshot named no version, or the save is the stored one.  And from a consistent
state the next differential declares a version that has its base. -/
theorem baseConsistent_always_iff (sound : m.server.Sound)
    (base : m.BaseConsistent job.gameId) (fresh : m.FreshFor (runBackup m job env).2) :
    (Always Machine.apply (fun m' => m'.BaseConsistent job.gameId) m (runBackup m job env).2 ↔
      packBackup m.device job env = none ∨
      (∃ p, packBackup m.device job env = some p ∧ p.Online m job.gameId env) ∨
      m.device.state.unconfirmed job.gameId = true ∨
      m.device.parent job.gameId = none ∨
      ∃ snap, m.device.state.snapshots job.gameId = some snap ∧
        snap.files = (Snapshot.build job.gameId env.saves env.takenAt).files) ∧
    ∀ (m' : Machine) (job' : BackupJob) (env' : BackupEnv) (p' : Packed),
      m'.BaseConsistent job'.gameId → packBackup m'.device job' env' = some p' →
      p'.create.kind = .differential →
      ∃ snap, m'.device.state.snapshots job'.gameId = some snap ∧
        ∃ v ∈ m'.server.db.listVersions m'.device.accountId job'.gameId,
          p'.create.parent = some v.id ∧ v.files = snap.files := by
  refine ⟨?_, fun m' job' env' p' => differential_of_baseConsistent⟩
  rcases runBackup_cases m job env with
    ⟨hnone, heq⟩ | ⟨p, hp, ⟨advance, hreply, heq⟩ | ⟨hreply, heq⟩⟩
  · rw [heq]
    simp [hnone, base]
  -- the upload was answered: the snapshot is written after the version it names
  · rw [heq, always_append]
    rw [heq, Machine.freshFor_append] at fresh
    have hpacked := always_packed sound p job.gameId env fresh.1
    have honline : p.Online m job.gameId env :=
      (Packed.upload_answered_iff sound (packBackup_archive hp).1 fresh.1.2).mp ⟨advance, hreply⟩
    refine iff_of_true ⟨hpacked.imp fun m' hm' => ?_, ?_⟩ (Or.inr (Or.inl ⟨p, hp, honline⟩))
    · exact base.mono (by rw [hm'.1]) (by rw [hm'.1]) hm'.2.1 hm'.2.2.2
    · obtain ⟨hst, hacc, -, hle⟩ := hpacked.finish
      have hstored := Packed.upload_stored (m := m.apply p.pack) sound fresh.1.2 hreply
      refine always_settled (base.mono (by rw [hst]) (by rw [hst]) hacc hle) ?_ hstored.2 m.device
      rw [hacc]
      exact hstored.1
  -- no answer: the snapshot is written first and the flag after it
  · rw [heq, always_append]
    rw [heq, Machine.freshFor_append] at fresh
    have hpacked := always_packed sound p job.gameId env fresh.1
    obtain ⟨hst, hacc, hsound', hle⟩ := hpacked.finish
    have hbefore : Always Machine.apply (fun m' => m'.BaseConsistent job.gameId) m
        (p.pack :: (p.upload (m.apply p.pack) job.gameId env).1) :=
      hpacked.imp fun m' hm' =>
        base.mono (by rw [hm'.1]) (by rw [hm'.1]) hm'.2.1 hm'.2.2.2
    rw [and_iff_right hbefore, always_queued_iff hbefore.finish, hst, hacc]
    obtain ⟨hfiles, hparent⟩ := packBackup_eq_some hp
    rw [hparent, hfiles]
    have hunanswered : ¬ ∃ p, packBackup m.device job env = some p ∧
        p.Online m job.gameId env := by
      rintro ⟨p', hp', honline⟩
      obtain rfl := Option.some.inj (hp.symm.trans hp')
      obtain ⟨advance, hadv⟩ :=
        (Packed.upload_answered_iff sound (packBackup_archive hp).1 fresh.1.2).mpr honline
      rw [hreply] at hadv
      cases hadv
    have hsome : packBackup m.device job env ≠ none := by simp [hp]
    rw [or_iff_right hsome, or_iff_right hunanswered]
    exact samefiles_iff base hsound' hle

end Backup

/-! ### A crash between the snapshot and the flag -/

section Example

local instance exampleDigest : Blake3 := plainDigest

/-- A save of one file with one byte. -/
def oneByteSave (byte : UInt8) : SaveSet where
  files := [⟨"save.dat", 0, [byte]⟩]
  sorted := by simp

/-- A paired device that has not backed up yet, and a server that knows the game. Runs on it
are the examples of the files that follow. -/
def newMachine : Machine where
  device :=
    { accountId := 1
      deviceId := 21
      state :=
        { snapshots := fun _ => none, outbox := [], diffcount := fun _ => none,
          unconfirmed := fun _ => false, lastBackupAt := none }
      cache := fun _ => none }
  server :=
    { db :=
        { accounts := [1], devices := [⟨21, 1, "pc21", .linux, "", none, false⟩], blobs := [],
          games := [⟨10, 1, "Game", none, none⟩], versions := [], config := [],
          resolvedConflicts := [] }
      objects := fun _ => none }

/-- A job for the game of the example. -/
def exampleJob : BackupJob where
  gameId := 10
  patterns := ["/home/me/game/*"]
  registryKeys := []

/-- A backup of `save` at time `now`, drawing its ids from `now`, so that backups at
different times draw different ones. -/
def exampleBackup (save : SaveSet) (authenticated : Bool) (fault : Fault) (now : Timestamp) :
    BackupEnv where
  deviceId := 21
  fullEvery := 10
  saves := save
  takenAt := now
  packedAt := now
  authenticated := authenticated
  fault := fault
  draw := ⟨100 + now, now⟩
  outboxId := 200 + now
  queuedAt := now
  doneAt := now

/-- After a first, online backup. -/
def backedUpMachine : Machine :=
  newMachine.run (runBackup newMachine exampleJob (exampleBackup (oneByteSave 1) true .none 1)).2

theorem newMachine_sound : newMachine.server.Sound :=
  Server.Sound.of_fresh ⟨by decide, by decide, by decide, by decide, rfl, by decide, by decide⟩
    (by simp [newMachine])

theorem backedUpMachine_sound : backedUpMachine.server.Sound :=
  (Machine.run_sound newMachine_sound (by decide)).1

theorem backedUpMachine_consistent : backedUpMachine.BaseConsistent 10 := by
  intro snap hs
  obtain rfl : _ = snap := Option.some.inj hs
  exact Or.inr (Or.inr (by decide))

/-- A second backup while the server is out of reach, killed after `put_snapshot`:
the snapshot holds the new save under the first version, and nothing is flagged. -/
theorem crash_before_flag :
    backedUpMachine.server.Sound ∧ backedUpMachine.BaseConsistent 10 ∧
      backedUpMachine.FreshFor
        (runBackup backedUpMachine exampleJob (exampleBackup (oneByteSave 2) false .none 2)).2 ∧
      ¬ (backedUpMachine.run ((runBackup backedUpMachine exampleJob
        (exampleBackup (oneByteSave 2) false .none 2)).2.take 3)).BaseConsistent 10 := by
  refine ⟨backedUpMachine_sound, backedUpMachine_consistent, by decide, fun base => ?_⟩
  have hcases := base _ rfl
  revert hcases
  decide

/-- The same backup with the server in reach is consistent throughout. -/
theorem baseConsistent_always_online :
    Always Machine.apply (fun m' => m'.BaseConsistent 10) backedUpMachine
      (runBackup backedUpMachine exampleJob (exampleBackup (oneByteSave 2) true .none 2)).2 :=
  (baseConsistent_always_iff backedUpMachine_sound backedUpMachine_consistent (by decide)).1.mpr
    (Or.inr (Or.inl ⟨_, rfl, rfl, rfl, ⟨_, rfl⟩, by decide, by decide⟩))

end Example

end Savr
