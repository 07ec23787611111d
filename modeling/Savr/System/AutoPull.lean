import Savr.Daemon.Pull
import Savr.System.Fidelity

/-!
# Auto-pull and unsynced saves

Under the policy `auto` a pushed version is to be pulled only over saves that have not
changed since the last sync, with a notification otherwise.  The engine leaves this to
the pre-restore backup, and `run_restore` goes on whatever that backup did: it found
nothing to do, uploaded, ran into a conflict, or was queued.

`auto_pull_guarded_iff` says that the guard holds exactly when there is nothing to guard,
and that a version that can be restored replaces the saves in every case.
-/

namespace Savr

section General

variable [Blake3]

/-! ### What a pull downloads -/

section Download

variable {s s' : Server} {account : AccountId} {gameId : GameId}

/-- Two sound servers give out the same archive for a version that both list. -/
theorem fetchArchive_eq (inj : Function.Injective Blake3.ofArchive) (sound : s.Sound)
    (sound' : s'.Sound) {v : Version} (hv : v ∈ s.db.listVersions account gameId)
    (hv' : v ∈ s'.db.listVersions account gameId) :
    fetchArchive s' account v = fetchArchive s account v := by
  obtain ⟨a, ha, hash⟩ := fetchArchive_of_mem sound hv
  obtain ⟨a', ha', hash'⟩ := fetchArchive_of_mem sound' hv'
  rw [ha, ha', inj (hash'.trans hash.symm)]

/-- Two sound servers that list the versions of a chain merge it to the same files: what a
listed version names is stored on both, under a hash that does not collide. -/
theorem mergeChain_eq (inj : Function.Injective Blake3.ofArchive) (sound : s.Sound)
    (sound' : s'.Sound) {chain : List Version}
    (hchain : ∀ v ∈ chain, v ∈ s.db.listVersions account gameId)
    (hchain' : ∀ v ∈ chain, v ∈ s'.db.listVersions account gameId)
    (merged : String → Option Bytes) :
    mergeChain s' account merged chain = mergeChain s account merged chain := by
  induction chain generalizing merged with
  | nil => rfl
  | cons v chain ih =>
      rw [mergeChain, mergeChain,
        fetchArchive_eq inj sound sound' (hchain v (by simp)) (hchain' v (by simp))]
      cases fetchArchive s account v with
      | error e => rfl
      | ok body =>
          exact ih (fun u hu => hchain u (by simp [hu])) (fun u hu => hchain' u (by simp [hu])) _

/-- The same history restores to the same files. -/
theorem restoredFiles_congr (inj : Function.Injective Blake3.ofArchive) (sound : s.Sound)
    (sound' : s'.Sound)
    (hlist : s'.db.listVersions account gameId = s.db.listVersions account gameId)
    (target : VersionId) :
    restoredFiles s' account gameId target = restoredFiles s account gameId target := by
  unfold restoredFiles
  rw [hlist]
  cases hchain : buildChain (s.db.listVersions account gameId) target with
  | none => rfl
  | some r =>
      cases r with
      | error e => rfl
      | ok chain =>
          have hmem := ((buildChain_eq_ok_iff (sound.wf.distinctIds account gameId)).mp hchain).mem
            (sound.wf.distinctIds account gameId)
          have hmem' : ∀ v ∈ chain, v ∈ s.db.listVersions account gameId := fun v hv =>
            hmem v (by simpa using hv)
          exact congrArg some
            (mergeChain_eq inj sound sound' hmem' (fun v hv => hlist ▸ hmem' v hv) _)

/-- A version that can be restored still can when the server has gained others. -/
theorem restoredFiles_le (inj : Function.Injective Blake3.ofArchive) (sound : s.Sound)
    (sound' : s'.Sound) (le : s.Le s') {target : VersionId} {merged : String → Option Bytes}
    (h : restoredFiles s account gameId target = some (.ok merged)) :
    restoredFiles s' account gameId target = some (.ok merged) := by
  have distinct := sound.wf.distinctIds account gameId
  have distinct' := sound'.wf.distinctIds account gameId
  obtain ⟨r, hchain, hr⟩ := Option.map_eq_some_iff.mp h
  cases r with
  | error e => cases hr
  | ok chain =>
      have chainTo := (buildChain_eq_ok_iff distinct).mp hchain
      have hmem : ∀ v ∈ chain, v ∈ s.db.listVersions account gameId := fun v hv =>
        chainTo.mem distinct v (by simpa using hv)
      have chainTo' : ChainTo (s'.db.listVersions account gameId) target chain.reverse := by
        rw [← List.map_id chain.reverse]
        refine PointerWalk.WalkTo.map (f := id) chainTo (fun id v _ hv => ?_) (fun _ _ => rfl)
          fun _ _ _ => rfl
        obtain ⟨hv, hid⟩ := (byId_eq_some_iff distinct).mp hv
        exact (byId_eq_some_iff distinct').mpr ⟨le.listVersions hv, hid⟩
      have hmerge : mergeChain s' account (fun _ => none) chain = .ok merged :=
        (mergeChain_eq inj sound sound' hmem (fun v hv => le.listVersions (hmem v hv)) _).trans hr
      rw [restoredFiles, (buildChain_eq_ok_iff distinct').mpr chainTo']
      exact congrArg some hmerge

/-- Every request of the pull gets through. -/
structure PullEnv.Answered (env : PullEnv) : Prop where
  listed : env.listed = true
  fetched : ∀ id, env.fetched id = true

/-- A download the server answers gives exactly what the target's chain restores to. -/
theorem download_eq_ok_iff {m : Machine} {env : PullEnv} (answered : env.Answered)
    {target : VersionId} {merged : String → Option Bytes} :
    download m gameId target env = .ok merged ↔
      restoredFiles m.server m.device.accountId gameId target = some (.ok merged) := by
  have hall : ∀ chain : List Version, (chain.all fun v => env.fetched v.id) = true := fun chain =>
    List.all_eq_true.mpr fun v _ => answered.fetched v.id
  unfold download restoredFiles
  rw [if_pos answered.listed]
  cases buildChain (m.server.db.listVersions m.device.accountId gameId) target with
  | none => simp
  | some r =>
      cases r with
      | error e => simp
      | ok chain =>
          simp only [hall chain, if_true, Option.map_some]
          cases mergeChain m.server m.device.accountId (fun _ => none) chain <;> simp

end Download

/-! ### The guard -/

/-- The saves are not what the stored snapshot lists. -/
def Site.Unsynced (s : Site) (gameId : GameId) (entry : GameEntry) : Prop :=
  hashes (entry.covered (s.disk gameId)) ≠
    fileMap (((s.machine.device.state.snapshots gameId).map StoredSnapshot.files).getD [])

/-- Unsynced saves are left alone and the user is notified; files are written or deleted
over synced saves only. -/
def Site.Guarded (s s' : Site) (gameId : GameId) (entry : GameEntry) : Prop :=
  (s.Unsynced gameId entry →
    s'.disk gameId = s.disk gameId ∧ s'.notices = s.notices ++ [gameId]) ∧
  (s'.disk gameId ≠ s.disk gameId → ¬ s.Unsynced gameId entry)

section Pull

variable {s : Site} {c : Catalog} {gameId : GameId} {target : VersionId} {env : PullEnv}
  {entry : GameEntry}

/-- The saves that were collected, by hash. -/
theorem GameEntry.Collects.fileMap_eq {disk : Disk} {saves : SaveSet}
    (collects : entry.Collects disk saves) :
    fileMap (saves.files.map SaveFile.entry) = hashes (entry.covered disk) := by
  funext path
  rw [hashes, ← collects path]
  cases hread : saves.read path with
  | none =>
      rw [Option.map_none, fileMap_eq_none_iff, List.map_map]
      exact SaveSet.read_eq_none_iff.mp hread
  | some bytes =>
      obtain ⟨f, hfind, rfl⟩ := Option.map_eq_some_iff.mp hread
      obtain rfl : f.relPath = path := by simpa using List.find?_some hfind
      exact fileMap_of_mem saves.distinctPaths
        (List.mem_map.mpr ⟨f, List.mem_of_find?_eq_some hfind, rfl⟩)

/-- A pull raises no notification. -/
theorem Site.restore_notices : (s.restore c gameId target env).1.notices = s.notices := by
  unfold Site.restore
  split
  · rfl
  · split
    · rfl
    · split
      · rfl
      · dsimp only
        split <;> rfl

theorem Site.onVersionAvailable_auto (auto : c.policy gameId = .auto)
    (idle : c.running gameId = false) :
    s.onVersionAvailable c gameId target env = (s.restore c gameId target env).1 := by
  rw [Site.onVersionAvailable, auto, idle]

/-- The device after the pre-restore backup. -/
def Site.backedUp (s : Site) (gameId : GameId) (env : PullEnv) (entry : GameEntry) : Site :=
  { s with machine := s.machine.run (s.preBackup gameId env entry) }

/-- A restore of a known, idle game with save targets. -/
theorem Site.restore_of_known (known : c.games gameId = some entry)
    (idle : c.running gameId = false)
    (targets : ¬ (entry.patterns = [] ∧ entry.registryKeys = [])) :
    s.restore c gameId target env =
      match download (s.backedUp gameId env entry).machine gameId target env with
      | .error e => (s.backedUp gameId env entry, .error e)
      | .ok merged =>
          ((s.backedUp gameId env entry).swapIn gameId target merged env.order, .ok ()) := by
  have hempty : (entry.patterns.isEmpty && entry.registryKeys.isEmpty) = false := by
    simpa using targets
  simp only [Site.restore, known, idle, hempty]
  rfl

/-- **A restorable version replaces the saves**, whatever they were. -/
theorem Site.restore_replaces (inj : Function.Injective Blake3.ofArchive)
    (sound : s.machine.server.Sound)
    (known : c.games gameId = some entry) (idle : c.running gameId = false)
    (targets : ¬ (entry.patterns = [] ∧ entry.registryKeys = []))
    (collects : entry.Collects (s.disk gameId) env.backup.saves)
    (fresh : s.machine.FreshFor (s.preBackup gameId env entry)) (answered : env.Answered)
    {merged : String → Option Bytes}
    (restorable : restoredFiles s.machine.server s.machine.device.accountId gameId target =
      some (.ok merged))
    (free : Disk.TmpFree merged) (complete : ∀ p, merged p ≠ none → p ∈ env.order) :
    s.restore c gameId target env =
        ((s.backedUp gameId env entry).swapIn gameId target merged env.order, .ok ()) ∧
      entry.covered ((s.restore c gameId target env).1.disk gameId) = entry.covered merged := by
  obtain ⟨sound', le, hacc⟩ := Machine.run_sound sound fresh
  have hdownload : download (s.backedUp gameId env entry).machine gameId target env =
      .ok merged := by
    refine (download_eq_ok_iff answered).mpr ?_
    change restoredFiles _ (s.machine.run _).device.accountId gameId target = _
    rw [hacc]
    exact restoredFiles_le inj sound sound' le restorable
  have hrestore : s.restore c gameId target env =
      ((s.backedUp gameId env entry).swapIn gameId target merged env.order, .ok ()) := by
    rw [Site.restore_of_known known idle targets, hdownload]
  refine ⟨hrestore, ?_⟩
  rw [hrestore]
  -- the backup has listed every save in the snapshot, so that stale ones are deleted
  obtain ⟨snap, hsnap, hmap⟩ := runBackup_snapshot s.machine (entry.job gameId)
    { env.backup with fullEvery := 2 ^ 32 - 1 } targets
  have hlisted : ∀ p, entry.covered (s.disk gameId) p ≠ none →
      ∃ snap, (s.backedUp gameId env entry).machine.device.state.snapshots gameId = some snap ∧
        p ∈ snap.files.map FileEntry.relPath := by
    intro p hp
    refine ⟨snap, hsnap, ?_⟩
    by_contra hnot
    rw [← fileMap_eq_none_iff, hmap] at hnot
    rw [GameEntry.Collects.fileMap_eq collects, hashes, Option.map_eq_none_iff] at hnot
    exact hp hnot
  change entry.covered (Function.update s.disk gameId _ gameId) = _
  rw [Function.update_self]
  exact Disk.replace_covered free complete hlisted

end Pull

/-- **When auto-pull guards unsynced saves.**  For every push that is handled under the
policy `auto` while the game is not running: unsynced saves are left alone and the user is
notified exactly when the saves are synced, so that there are none.  A version that can
be restored replaces the saves in either case, however the pre-restore backup ended. -/
theorem auto_pull_guarded_iff {s : Site} {c : Catalog} {gameId : GameId} {target : VersionId}
    {env : PullEnv} {entry : GameEntry} (auto : c.policy gameId = .auto)
    (idle : c.running gameId = false) (known : c.games gameId = some entry)
    (collects : entry.Collects (s.disk gameId) env.backup.saves) :
    (s.Guarded (s.onVersionAvailable c gameId target env) gameId entry ↔
      ¬ s.Unsynced gameId entry) ∧
    (Function.Injective Blake3.ofArchive → s.machine.server.Sound →
      s.machine.FreshFor (s.preBackup gameId env entry) →
      ¬ (entry.patterns = [] ∧ entry.registryKeys = []) → env.Answered →
      ∀ merged, restoredFiles s.machine.server s.machine.device.accountId gameId target =
          some (.ok merged) →
        Disk.TmpFree merged → (∀ p, merged p ≠ none → p ∈ env.order) →
        entry.covered ((s.onVersionAvailable c gameId target env).disk gameId) =
          entry.covered merged) := by
  rw [Site.onVersionAvailable_auto auto idle]
  constructor
  · constructor
    · rintro ⟨guard, -⟩ unsynced
      have hnotices := (guard unsynced).2
      rw [Site.restore_notices] at hnotices
      simpa using congrArg List.length hnotices
    · intro synced
      exact ⟨fun unsynced => absurd unsynced synced, fun _ => synced⟩
  · intro inj sound fresh targets answered merged restorable free complete
    exact (Site.restore_replaces inj sound known idle targets collects fresh answered restorable
      free complete).2

end General

/-! ### A save is overwritten -/

section Example

local instance pullDigest : Blake3 := plainDigest

/-- Two devices of one account, 21 and 22. -/
def pairedWorld : World where
  server := { newMachine.server with db := { newMachine.server.db with
    devices :=
      [⟨21, 1, "pc21", .linux, "", none, false⟩, ⟨22, 1, "pc22", .linux, "", none, false⟩] } }
  devices := fun d => { newMachine.device with deviceId := 21 + d }

/-- Device 21 backs up; device 22 restores that version and backs up a save of its own. -/
def otherDevicePlays : List (ℕ × Op) :=
  [(0, .backup exampleJob (exampleBackup (oneByteSave 1) true .none 1)),
   (1, .restore 10 101),
   (1, .backup exampleJob { exampleBackup (oneByteSave 3) true .none 2 with deviceId := 22 })]

/-- The game of the example, as the engine knows it. -/
def exampleEntry : GameEntry where
  title := "Game"
  patterns := exampleJob.patterns
  registryKeys := []
  covers := fun _ => true

/-- One game, under the policy `auto`, not running. -/
def exampleCatalog : Catalog where
  config := { autopull := .auto, games := fun _ => none }
  games := fun gameId => if gameId = 10 then some exampleEntry else none
  running := fun _ => false

/-- Device 21 with a save of one byte on disk. -/
def siteAfter (ops : List (ℕ × Op)) (byte : UInt8) : Site where
  machine := (pairedWorld.after ops).machine 0
  disk := fun _ path => (oneByteSave byte).read path
  notices := []

/-- A pull that finds this save on the disk, and the whole history on the server. -/
def examplePull (save : SaveSet) (now : Timestamp) : PullEnv where
  backup := exampleBackup save true .none now
  listed := true
  fetched := fun _ => true
  order := save.files.map SaveFile.relPath

theorem siteAfter_collects (ops : List (ℕ × Op)) (byte : UInt8) :
    exampleEntry.Collects ((siteAfter ops byte).disk 10) (oneByteSave byte) := fun _ => rfl

theorem pairedWorld_new : pairedWorld.New :=
  ⟨⟨by decide, by decide, by decide, by decide, rfl, by decide, by decide⟩,
    by simp [pairedWorld, newMachine], fun _ => ⟨fun _ => rfl, rfl⟩⟩

/-- Device 21 has not played since its backup. -/
def idleSite : Site := siteAfter otherDevicePlays 1

/-- Device 21 has played on. -/
def playedOnSite : Site := siteAfter otherDevicePlays 2

/-- Without unsynced saves the guard has nothing to guard. -/
theorem synced_pull_guarded :
    idleSite.Guarded (idleSite.onVersionAvailable exampleCatalog 10 102
      (examplePull (oneByteSave 1) 3)) 10 exampleEntry := by
  have collects : exampleEntry.Collects (idleSite.disk 10) (oneByteSave 1) :=
    siteAfter_collects _ _
  refine (auto_pull_guarded_iff rfl rfl rfl collects).1.mpr fun unsynced => unsynced ?_
  rw [← collects.fileMap_eq]
  exact congrArg fileMap (by decide +kernel)

/-- Device 21 has played on and is pushed version 102.  Its save is replaced by the one of
device 22, and it is not notified. -/
theorem unsynced_save_overwritten :
    pairedWorld.New ∧ pairedWorld.FreshOps otherDevicePlays ∧
      playedOnSite.machine.FreshFor
        (playedOnSite.preBackup 10 (examplePull (oneByteSave 2) 3) exampleEntry) ∧
      playedOnSite.Unsynced 10 exampleEntry ∧
      playedOnSite.disk 10 "save.dat" = some [2] ∧
      (playedOnSite.onVersionAvailable exampleCatalog 10 102
        (examplePull (oneByteSave 2) 3)).disk 10 "save.dat" = some [3] ∧
      (playedOnSite.onVersionAvailable exampleCatalog 10 102
        (examplePull (oneByteSave 2) 3)).notices = [] ∧
      ¬ playedOnSite.Guarded (playedOnSite.onVersionAvailable exampleCatalog 10 102
        (examplePull (oneByteSave 2) 3)) 10 exampleEntry := by
  have hunsynced : playedOnSite.Unsynced 10 exampleEntry := by
    intro heq
    have hsave := congrFun heq "save.dat"
    revert hsave
    decide +kernel
  have hswapped : (playedOnSite.onVersionAvailable exampleCatalog 10 102
      (examplePull (oneByteSave 2) 3)).disk 10 "save.dat" = some [3] := by decide +kernel
  refine ⟨pairedWorld_new, by decide +kernel, by decide +kernel, hunsynced, by decide +kernel,
    hswapped, by decide +kernel, ?_⟩
  rintro ⟨guard, -⟩
  have hsame := congrFun (guard hunsynced).1 "save.dat"
  rw [hswapped] at hsame
  revert hsame
  decide +kernel

end Example

end Savr
