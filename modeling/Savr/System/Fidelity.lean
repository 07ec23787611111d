import Savr.System.World

/-!
# Restore fidelity

A version restores to what it declares when every archive of its chain takes the
files of the version before it to its own files (`CreateVersion.Faithful`).  For a
differential this is the case when it was packed against the files of the version
it declares as its parent, which is what `Machine.BaseConsistent` says of a device.

One operation breaks the latter: a drain of the outbox moves `local_head` to the
version of an entry, whose files need not be those of the current snapshot when a
later backup has overtaken the entry.  Everything else keeps it.

## Main results

* `Server.Faithful.restores` — on a faithful server every version restores to the
  `rel_path → hash` map it declares.
* `restore_fidelity` — every run in which no overtaken entry is drained keeps the
  server faithful and every differential on the base its parent has.
-/

namespace Savr

open KeyedMap LabelledRun PointerWalk Script

section General

variable [Blake3]

/-! ### What an archive does to a file map -/

/-- The `rel_path → hash` map of restored files. -/
def hashes (merged : String → Option Bytes) : String → Option Blake3Hash :=
  fun path => (merged path).map Blake3.ofBytes

/-- The packed files with their hashes. -/
def Archive.hashed (a : Archive) : List (String × Blake3Hash) :=
  a.payload.map fun f => (f.1, Blake3.ofBytes f.2)

theorem hashes_mergeArchive (merged : String → Option Bytes) (a : Archive) :
    hashes (mergeArchive merged a) = patch (hashes merged) a.hashed a.metadata.deletions :=
  (patch_map_snd Blake3.ofBytes merged a.payload a.metadata.deletions).symm

/-- The archive takes the files of the version before it to the declared ones: for a
full, no files; for a differential, those of its parent. -/
def CreateVersion.Packs (history : List Version) (req : CreateVersion) (a : Archive) : Prop :=
  match req.kind with
  | .full => patch (fun _ => none) a.hashed a.metadata.deletions = fileMap req.files
  | .differential => ∃ u ∈ history, req.parent = some u.id ∧
      patch (fileMap u.files) a.hashed a.metadata.deletions = fileMap req.files

/-- The hash of the version names an archive that packs it. -/
def CreateVersion.Faithful (history : List Version) (req : CreateVersion) : Prop :=
  ∃ a, Blake3.ofArchive a = req.blobHash ∧ req.Packs history a

/-- A request that is faithful over a history stays so over any that contains it. -/
theorem CreateVersion.Faithful.mono {history history' : List Version} {req : CreateVersion}
    (h : req.Faithful history) (hsub : ∀ v ∈ history, v ∈ history') : req.Faithful history' := by
  obtain ⟨a, hhash, hpacks⟩ := h
  refine ⟨a, hhash, ?_⟩
  unfold CreateVersion.Packs at hpacks ⊢
  split
  · rename_i hkind
    simpa only [hkind] using hpacks
  · rename_i hkind
    simp only [hkind] at hpacks
    obtain ⟨u, hu, hparent, hpatch⟩ := hpacks
    exact ⟨u, hsub u hu, hparent, hpatch⟩

/-! ### A faithful server -/

/-- Every version is packed faithfully. -/
structure Server.Faithful (s : Server) : Prop where
  sound : s.Sound
  versions : ∀ account gameId, ∀ v ∈ s.db.listVersions account gameId,
    v.request.Faithful (s.db.listVersions account gameId)

section Restore

variable {s : Server} {account : AccountId} {gameId : GameId} {v : Version}

/-- The archive of a listed version can be fetched, and is the one it names. -/
theorem fetchArchive_of_mem (sound : s.Sound) (hv : v ∈ s.db.listVersions account gameId) :
    ∃ a, fetchArchive s account v = .ok a ∧ Blake3.ofArchive a = v.blobHash := by
  obtain ⟨row, hrow, hgame, hacc, rfl⟩ := Db.mem_listVersions.mp hv
  obtain ⟨a, ha⟩ := sound.stored row hrow
  have hhash := sound.addressed _ _ ha
  refine ⟨a, ?_, hhash⟩
  have hreferenced : (s.db.versions.any fun v => v.blobHash = row.blobHash &&
      v.accountId = account) = true := by
    rw [List.any_eq_true]
    exact ⟨row, hrow, by simp [hacc]⟩
  have hget : s.blobGet account row.toVersion.blobHash = .ok a := by
    rw [Server.blobGet, if_pos hreferenced, ha]
  rw [fetchArchive, hget]
  exact if_pos hhash

/-- A chain with one more version merges to what that version makes of the chain before it. -/
theorem mergeChain_append (merged : String → Option Bytes) (c : List Version) (v : Version) :
    mergeChain s account merged (c ++ [v]) =
      match mergeChain s account merged c with
      | .error e => .error e
      | .ok merged' => mergeChain s account merged' [v] := by
  induction c generalizing merged with
  | nil => rfl
  | cons u c ih =>
      rw [List.cons_append, mergeChain, mergeChain]
      cases fetchArchive s account u with
      | error e => rfl
      | ok a => exact ih _

omit [Blake3] in
/-- The parent of a listed version has a smaller `seq`. -/
theorem seq_lt_of_parent (wf : s.db.WF) (hv : v ∈ s.db.listVersions account gameId)
    {u : Version} (hu : u ∈ s.db.listVersions account gameId) (hparent : v.parent = some u.id) :
    u.seq < v.seq := by
  obtain ⟨vrow, hvrow, hvg, -, rfl⟩ := Db.mem_listVersions.mp hv
  obtain ⟨urow, hurow, hug, -, rfl⟩ := Db.mem_listVersions.mp hu
  obtain ⟨prow, hprow, hid, hlt⟩ := wf.parentOlder vrow hvrow _ hparent
  obtain rfl := List.inj_on_of_nodup_map wf.versionIds hprow hurow hid
  exact hlt (hug.trans hvg.symm)

/-- The chain of a version exists, and merging it gives the declared files. -/
theorem Server.Faithful.chain (inj : Function.Injective Blake3.ofArchive) (h : s.Faithful) :
    ∀ v ∈ s.db.listVersions account gameId,
      ∃ chain merged, ChainTo (s.db.listVersions account gameId) v.id chain ∧
        mergeChain s account (fun _ => none) chain.reverse = .ok merged ∧
        hashes merged = fileMap v.files := by
  have distinct := h.sound.wf.distinctIds account gameId
  intro v
  -- along the parents `seq` decreases
  induction hseq : v.seq using Nat.strongRecOn generalizing v with
  | _ n ih =>
      intro hv
      have hlookup := (byId_eq_some_iff distinct).mpr ⟨hv, rfl⟩
      obtain ⟨a, hfetch, hah⟩ := fetchArchive_of_mem h.sound hv
      obtain ⟨b, hbh, hpacks⟩ := h.versions account gameId v hv
      obtain rfl : a = b := inj (hah.trans hbh.symm)
      have hlast : ∀ merged, mergeChain s account merged [v] = .ok (mergeArchive merged a) := by
        intro merged
        rw [mergeChain, hfetch]
        rfl
      cases hkind : v.kind with
      | full =>
          have hpatch : patch (fun _ => none) a.hashed a.metadata.deletions =
              fileMap v.files := by
            simpa only [CreateVersion.Packs, Version.request, hkind] using hpacks
          refine ⟨[v], mergeArchive (fun _ => none) a,
            .last hlookup (by simp [Version.isFull, hkind]), hlast _, ?_⟩
          rw [hashes_mergeArchive]
          exact hpatch
      | differential =>
          have hdiff : ∃ u ∈ s.db.listVersions account gameId, v.parent = some u.id ∧
              patch (fileMap u.files) a.hashed a.metadata.deletions = fileMap v.files := by
            simpa only [CreateVersion.Packs, Version.request, hkind] using hpacks
          obtain ⟨u, hu, hparent, hpatch⟩ := hdiff
          have hlt := seq_lt_of_parent h.sound.wf hv hu hparent
          obtain ⟨chain, merged, hchain, hmerge, hmap⟩ := ih u.seq (hseq ▸ hlt) u rfl hu
          refine ⟨v :: chain, mergeArchive merged a,
            .step hlookup (by simp [Version.isFull, hkind]) hparent hchain, ?_, ?_⟩
          · rw [List.reverse_cons, mergeChain_append, hmerge]
            exact hlast merged
          · rw [hashes_mergeArchive, hmap]
            exact hpatch

/-- **On a faithful server every version restores to what it declares.** -/
theorem Server.Faithful.restores (inj : Function.Injective Blake3.ofArchive) (h : s.Faithful)
    (hv : v ∈ s.db.listVersions account gameId) :
    ∃ merged, restoredFiles s account gameId v.id = some (.ok merged) ∧
      hashes merged = fileMap v.files := by
  obtain ⟨chain, merged, hchain, hmerge, hmap⟩ := h.chain inj v hv
  have hbuild : buildChain (s.db.listVersions account gameId) v.id = some (.ok chain.reverse) :=
    (buildChain_eq_ok_iff (h.sound.wf.distinctIds account gameId)).mpr
      (by rwa [List.reverse_reverse])
  refine ⟨merged, ?_, hmap⟩
  rw [restoredFiles, hbuild]
  exact congrArg some hmerge

end Restore

/-! ### Requests -/

section Requests

variable {s : Server} {m : Machine} {gameId : GameId} {create : CreateVersion}

theorem faithful_grows : Grows fun history req => req.Faithful history :=
  fun _ _ _ _ _ hsub h => h.mono hsub

theorem Server.faithful_iff_each :
    s.Faithful ↔ s.Each fun history req => req.Faithful history :=
  ⟨fun h => ⟨h.sound, h.versions⟩, fun h => ⟨h.sound, h.versions⟩⟩

/-- Only the versions matter. -/
theorem Server.Faithful.of_versions (h : s.Faithful) {s' : Server} (sound : s'.Sound)
    (hversions : s'.db.versions = s.db.versions) : s'.Faithful :=
  faithful_iff_each.mpr ((faithful_iff_each.mp h).of_versions sound hversions)

/-- The action uploads only what is packed faithfully. -/
def Machine.FaithfulAction (m : Machine) : Action → Prop
  | .request (.createVersion gameId req _ _) =>
      req.Faithful (m.server.db.listVersions m.device.accountId gameId)
  | _ => True

theorem Server.Faithful.apply (h : m.server.Faithful) {a : Action} (fresh : m.FreshAction a)
    (faithful : m.FaithfulAction a) : (m.apply a).server.Faithful :=
  faithful_iff_each.mpr ((faithful_iff_each.mp h).apply faithful_grows fresh faithful)

theorem Server.Faithful.run (h : m.server.Faithful) {as : List Action} (fresh : m.FreshFor as)
    (faithful : create.Faithful (m.server.db.listVersions m.device.accountId gameId))
    (hcreate : ∀ g req id now, Action.request (.createVersion g req id now) ∈ as →
      g = gameId ∧ req = create) : (m.run as).server.Faithful :=
  faithful_iff_each.mpr ((faithful_iff_each.mp h).run faithful_grows fresh faithful hcreate)

/-- Uploading what is packed faithfully keeps the server faithful. -/
theorem Server.Faithful.uploadVersion (h : m.server.Faithful) {fault : Fault}
    {archivePath : Blake3Hash} {draw : Draw}
    (fresh : m.FreshFor (uploadVersion m fault gameId create archivePath draw).1)
    (faithful : create.Faithful (m.server.db.listVersions m.device.accountId gameId)) :
    (m.run (Savr.uploadVersion m fault gameId create archivePath draw).1).server.Faithful :=
  faithful_iff_each.mpr ((faithful_iff_each.mp h).uploadVersion faithful_grows fresh faithful)

end Requests

/-! ### What a backup packs -/

section Pack

variable {m : Machine} {job : BackupJob} {env : BackupEnv} {p : Packed}

/-- The hashes of a payload are those of the entries it was built from. -/
theorem hashed_buildPayload (saves : SaveSet) {files : List FileEntry}
    (hsub : ∀ f ∈ files, f ∈ saves.files.map SaveFile.entry) :
    (buildPayload saves files).map (fun f => (f.1, Blake3.ofBytes f.2)) =
      files.map fun f => (f.relPath, f.hash) := by
  induction files with
  | nil => rfl
  | cons f files ih =>
      obtain ⟨bytes, hread, hhash⟩ := saves.read_entry (hsub f (by simp))
      have ih := ih fun g hg => hsub g (by simp [hg])
      unfold buildPayload at ih ⊢
      rw [List.filterMap_cons_some (by rw [hread]; rfl), List.map_cons, List.map_cons, ih, hhash]

/-- The files of a full, and no deletions. -/
theorem packBackup_full (hp : packBackup m.device job env = some p)
    (hkind : p.create.kind = .full) :
    p.archive.payload = buildPayload env.saves p.create.files ∧
      p.archive.metadata.deletions = [] := by
  unfold packBackup at hp
  split at hp
  · cases hp
  · obtain ⟨⟨changed, deleted⟩, -, rfl⟩ := Option.map_eq_some_iff.mp hp
    simp only at hkind ⊢
    rw [hkind]
    exact ⟨rfl, rfl⟩

/-- The changes of a differential against the stored snapshot. -/
theorem packBackup_differential (hp : packBackup m.device job env = some p)
    (hkind : p.create.kind = .differential) {snap : StoredSnapshot}
    (hsnap : m.device.state.snapshots job.gameId = some snap) :
    ∃ old : Snapshot, old.files = snap.files ∧
      p.archive.payload = buildPayload env.saves
        (diff old (Snapshot.build job.gameId env.saves env.takenAt)).changed ∧
      p.archive.metadata.deletions =
        (diff old (Snapshot.build job.gameId env.saves env.takenAt)).deleted := by
  refine ⟨⟨job.gameId, snap.files, snap.takenAt⟩, rfl, ?_⟩
  unfold packBackup at hp
  split at hp
  · cases hp
  · obtain ⟨⟨changed, deleted⟩, hdiff, rfl⟩ := Option.map_eq_some_iff.mp hp
    simp only [backupDiff, hsnap] at hdiff
    split at hdiff
    · cases hdiff
    · obtain ⟨rfl, rfl⟩ := Prod.mk.inj (Option.some.inj hdiff)
      simp only at hkind ⊢
      rw [hkind]
      exact ⟨rfl, rfl⟩

/-- **From a consistent base, a backup packs faithfully.** -/
theorem packBackup_faithful (base : m.BaseConsistent job.gameId)
    (hp : packBackup m.device job env = some p) :
    p.create.Faithful (m.server.db.listVersions m.device.accountId job.gameId) := by
  obtain ⟨hfiles, -⟩ := packBackup_eq_some hp
  refine ⟨p.archive, (packBackup_archive hp).1.symm, ?_⟩
  unfold CreateVersion.Packs Archive.hashed
  cases hkind : p.create.kind with
  | full =>
      obtain ⟨hpayload, hdeletions⟩ := packBackup_full hp hkind
      simp only
      rw [hpayload, hdeletions, hashed_buildPayload env.saves (by rw [hfiles]; exact fun _ h => h)]
      rfl
  | differential =>
      obtain ⟨snap, hsnap, v, hv, hparent, hvfiles⟩ :=
        differential_of_baseConsistent base hp hkind
      obtain ⟨old, hold, hpayload, hdeletions⟩ := packBackup_differential hp hkind hsnap
      refine ⟨v, hv, hparent, ?_⟩
      rw [hpayload, hdeletions, hfiles, hvfiles, ← hold,
        hashed_buildPayload env.saves fun f hf => (mem_changed.mp hf).1]
      exact patch_diff old env.saves.distinctPaths

end Pack

/-! ### A faithful device -/

/-- The server is faithful, and so are the device's outbox and its bases. -/
structure Machine.Faithful (m : Machine) : Prop where
  server : m.server.Faithful
  outbox : ∀ row ∈ m.device.state.outbox, ∀ p, row.payload = some p →
    p.createVersion.Faithful (m.server.db.listVersions m.device.accountId p.gameId)
  base : ∀ gameId, m.BaseConsistent gameId

section Device

variable {m m' : Machine} {gameId : GameId}

/-- A device whose state has not changed, on a server that has only gained. -/
theorem Machine.Faithful.mono (h : m.Faithful) (server : m'.server.Faithful)
    (hstate : m'.device.state = m.device.state)
    (hacc : m'.device.accountId = m.device.accountId) (hle : m.server.Le m'.server) :
    m'.Faithful := by
  refine ⟨server, fun row hrow p hp => ?_, fun g => ?_⟩
  · rw [hacc]
    rw [hstate] at hrow
    exact (h.outbox row hrow p hp).mono fun u hu => hle.listVersions hu
  · exact (h.base g).mono (by rw [hstate]) (by rw [hstate]) hacc hle

/-- The writes that concern the base of one game only. -/
def Write.about (gameId : GameId) : Write → Prop
  | .putSnapshot g _ _ _ | .setLocalHead g _ | .setUnconfirmed g _ => g = gameId
  | _ => True

omit [Blake3] in
/-- A write about one game leaves the snapshots of the others. -/
theorem Write.about.apply {w : Write} (h : w.about gameId) (d : Device) {g : GameId}
    (hg : g ≠ gameId) :
    (w.apply d).state.snapshots g = d.state.snapshots g ∧
      (w.apply d).state.unconfirmed g = d.state.unconfirmed g := by
  cases w with
  | putSnapshot g' | setLocalHead g' | setUnconfirmed g' =>
      obtain rfl : g' = gameId := h
      simp [Write.apply, LocalState.putSnapshot, LocalState.setLocalHead, hg]
  | setDiffcount | setLastBackupAt | enqueueOutbox | bumpOutboxAttempt | removeOutbox
  | cacheArchive | removeArchive => exact ⟨rfl, rfl⟩

/-- Writes about one game leave the bases of the others alone. -/
theorem baseConsistent_of_about {ws : List Write} (habout : ∀ w ∈ ws, w.about gameId)
    {g : GameId} (hg : g ≠ gameId) (base : m.BaseConsistent g) :
    (m.run (ws.map Action.write)).BaseConsistent g := by
  induction ws generalizing m with
  | nil => exact base
  | cons w ws ih =>
      obtain ⟨hsnap, hflag⟩ := (habout w (by simp)).apply m.device hg
      refine ih (fun w' hw' => habout w' (by simp [hw'])) ?_
      exact base.mono hsnap hflag (Machine.Write.apply_accountId _ _) (Server.Le.refl _)

variable {job : BackupJob} {env : BackupEnv} {p : Packed}

/-- Recording an answered backup. -/
theorem Machine.Faithful.settleBackup (h : m.Faithful) {advance : Advance}
    (hstored : advance.version ∈ m.server.db.listVersions m.device.accountId job.gameId)
    (hreq : advance.version.request = p.create) (d : Device) :
    (m.run (settleBackup d job.gameId p env advance)).Faithful := by
  obtain ⟨ws, hws, habout, hserver, hacc, houtbox⟩ : ∃ ws : List Write,
      Savr.settleBackup d job.gameId p env advance = ws.map Action.write ∧
      (∀ w ∈ ws, w.about job.gameId) ∧
      (m.run (ws.map Action.write)).server = m.server ∧
      (m.run (ws.map Action.write)).device.accountId = m.device.accountId ∧
      (m.run (ws.map Action.write)).device.state.outbox = m.device.state.outbox := by
    cases advance with
    | fastForward version =>
        exact ⟨[_, _, _, _, _], rfl, by simp [Write.about], rfl, rfl, rfl⟩
    | conflict head incoming => exact ⟨[_, _, _], rfl, by simp [Write.about], rfl, rfl, rfl⟩
  have hbase : (m.run (Savr.settleBackup d job.gameId p env advance)).BaseConsistent job.gameId :=
    (always_settled (h.base job.gameId) hstored hreq d).finish
  rw [hws] at hbase ⊢
  refine ⟨hserver ▸ h.server, ?_, fun g => ?_⟩
  · rw [houtbox, hserver, hacc]
    exact h.outbox
  · by_cases hg : g = job.gameId
    · exact hg ▸ hbase
    · exact baseConsistent_of_about habout hg (h.base g)

/-- Queueing a backup that is packed faithfully. -/
theorem Machine.Faithful.queueBackup (h : m.Faithful)
    (faithful : p.create.Faithful (m.server.db.listVersions m.device.accountId job.gameId)) :
    (m.run (queueBackup job.gameId p env)).Faithful := by
  refine ⟨h.server, fun row hrow q hq => ?_, fun g => ?_⟩
  · change row ∈ m.device.state.outbox.filter _ ++ [_] at hrow
    rcases List.mem_append.mp hrow with hrow | hrow
    · exact h.outbox row (List.mem_of_mem_filter hrow) q hq
    · obtain rfl := List.mem_singleton.mp hrow
      obtain rfl := Option.some.inj hq
      exact faithful
  · by_cases hg : g = job.gameId
    · subst hg
      exact Machine.baseConsistent_flagged (by simp [Savr.queueBackup, Write.apply])
    · have habout : ∀ w ∈ [Write.enqueueOutbox env.outboxId
          { gameId := job.gameId, blobHash := p.create.blobHash, createVersion := p.create }
          env.queuedAt, .putSnapshot job.gameId p.create.files p.takenAt p.create.parent,
          .setUnconfirmed job.gameId true], w.about job.gameId := by
        simp [Write.about]
      exact baseConsistent_of_about habout hg (h.base g)

/-- **A backup keeps everything faithful.** -/
theorem Machine.Faithful.runBackup (h : m.Faithful) (job : BackupJob) (env : BackupEnv)
    (fresh : m.FreshFor (runBackup m job env).2) : (m.run (runBackup m job env).2).Faithful := by
  rcases runBackup_cases m job env with
    ⟨-, heq⟩ | ⟨p, hp, ⟨advance, hreply, heq⟩ | ⟨hreply, heq⟩⟩
  · rw [heq]
    exact h
  all_goals
    rw [heq, Machine.freshFor_append] at fresh
    rw [heq, Machine.run_append]
    obtain ⟨hstate, hacc, -, hle⟩ := (always_packed h.server.sound p job.gameId env fresh.1).finish
    have hpacked := packBackup_faithful (h.base job.gameId) hp
    have hserver :
        (m.run (p.pack :: (p.upload (m.apply p.pack) job.gameId env).1)).server.Faithful := by
      refine h.server.run fresh.1 hpacked fun g req id now hmem => ?_
      rcases List.mem_cons.mp hmem with hmem | hmem
      · cases hmem
      · rcases p.mem_upload hmem with ⟨body, heq'⟩ | heq'
        · cases heq'
        · cases heq'
          exact ⟨rfl, rfl⟩
    have hdevice : (m.run (p.pack :: (p.upload (m.apply p.pack) job.gameId env).1)).Faithful :=
      h.mono hserver hstate hacc hle
  · have hstored := Packed.upload_stored (m := m.apply p.pack) h.server.sound fresh.1.2 hreply
    refine hdevice.settleBackup ?_ hstored.2 m.device
    rw [show (m.run _).device.accountId = m.device.accountId from hacc]
    exact hstored.1
  · refine hdevice.queueBackup ?_
    rw [show (m.run _).device.accountId = m.device.accountId from hacc]
    exact hpacked.mono fun u hu => hle.listVersions hu

end Device

/-! ### Draining the outbox -/

/-- The base has moved on since the entry was queued: the game is not flagged, and
its snapshot holds other files. -/
def Device.Overtaken (d : Device) (p : OutboxPayload) : Prop :=
  d.state.unconfirmed p.gameId = false ∧
    ∃ snap, d.state.snapshots p.gameId = some snap ∧ snap.files ≠ p.createVersion.files

/-- Flags and files are the same; heads may differ. -/
structure SameBases (d d' : Device) : Prop where
  flags : d'.state.unconfirmed = d.state.unconfirmed
  files : ∀ g, (d'.state.snapshots g).map StoredSnapshot.files =
    (d.state.snapshots g).map StoredSnapshot.files

omit [Blake3] in
theorem SameBases.overtaken {d d' : Device} (h : SameBases d d') {p : OutboxPayload}
    (hover : d'.Overtaken p) : d.Overtaken p := by
  obtain ⟨hflag, snap, hsnap, hne⟩ := hover
  have hfiles := h.files p.gameId
  rw [hsnap, Option.map_some] at hfiles
  obtain ⟨snap₀, hsnap₀, heq⟩ := Option.map_eq_some_iff.mp hfiles.symm
  exact ⟨by rw [← h.flags, hflag], snap₀, hsnap₀, heq ▸ hne⟩

section Retry

variable {m : Machine} {now : Timestamp}

omit [Blake3] in
/-- Moving the head to a version of the snapshot's files keeps the base consistent. -/
theorem baseConsistent_setLocalHead {gameId : GameId} {v : Version} {d : Device}
    (hv : v ∈ m.server.db.listVersions m.device.accountId gameId)
    (hfiles : m.device.state.unconfirmed gameId = true ∨
      ∀ snap, m.device.state.snapshots gameId = some snap → snap.files = v.files)
    (hacc : d.accountId = m.device.accountId)
    (hflag : d.state.unconfirmed = m.device.state.unconfirmed)
    (hsnap : d.state.snapshots = (m.device.state.setLocalHead gameId v.id).snapshots) :
    (⟨d, m.server⟩ : Machine).BaseConsistent gameId := by
  intro snap hs
  change d.state.snapshots gameId = some snap at hs
  rw [hsnap] at hs
  change Function.update m.device.state.snapshots gameId _ gameId = some snap at hs
  rw [Function.update_self] at hs
  obtain ⟨snap₀, hs₀, rfl⟩ := Option.map_eq_some_iff.mp hs
  change d.state.unconfirmed gameId = true ∨ _ ∨ _
  rw [hflag]
  rcases hfiles with hflagged | hfiles
  · exact Or.inl hflagged
  · refine Or.inr (Or.inr ⟨v, ?_, rfl, (hfiles snap₀ hs₀).symm⟩)
    change v ∈ m.server.db.listVersions d.accountId gameId
    rw [hacc]
    exact hv

omit [Blake3] in
theorem Fault.delivers_true {fault : Fault} {present : Bool} (h : fault.delivers present = true) :
    fault.delivers true = true := by
  cases fault <;> simp_all [Fault.delivers]

/-- The upload of an entry, before its reply is looked at. -/
theorem Machine.Faithful.retryUpload (h : m.Faithful) {p : OutboxPayload} {env : RetryEnv}
    (faithful : p.createVersion.Faithful
      (m.server.db.listVersions m.device.accountId p.gameId))
    (fresh : m.FreshFor (p.upload m env).1) :
    (⟨m.device, (m.run (p.upload m env).1).server⟩ : Machine).Faithful := by
  obtain ⟨-, hle, -⟩ := Machine.run_sound h.server.sound fresh
  exact h.mono (h.server.uploadVersion fresh faithful) rfl rfl hle

/-- **One entry of a drain**, unless it is overtaken and answered. -/
theorem Machine.Faithful.retryItem (h : m.Faithful) {item : OutboxRow} {env : RetryEnv}
    (faithful : ∀ p, item.payload = some p →
      p.createVersion.Faithful (m.server.db.listVersions m.device.accountId p.gameId))
    (current : ∀ p, item.payload = some p → env.fault.delivers true = true →
      ¬ m.device.Overtaken p)
    (fresh : m.FreshFor (retryItem m now item env)) :
    (m.run (retryItem m now item env)).Faithful ∧
      SameBases m.device (m.run (retryItem m now item env)).device := by
  rcases retryItem_cases m now item env with
    ⟨hnone, heq⟩ | ⟨p, hp, ⟨advance, hreply, marks, hmarks, heq⟩ | ⟨hreply, next, heq⟩⟩
  · rw [heq]
    refine ⟨⟨h.server, fun row hrow => h.outbox row (List.mem_of_mem_filter hrow), h.base⟩, ?_⟩
    exact ⟨rfl, fun _ => rfl⟩
  · have hfresh : m.FreshFor (p.upload m env).1 := by
      rw [heq, List.append_assoc] at fresh
      exact (Machine.freshFor_append.mp fresh).1
    have hsent := h.retryUpload (faithful p hp) hfresh
    have hstored := uploadVersion_stored h.server.sound hfresh hreply
    have hdelivered := ((uploadVersion_answered_iff h.server.sound hfresh).mp ⟨advance, hreply⟩).1
    have hcurrent := current p hp (Fault.delivers_true hdelivered)
    obtain ⟨at_, hrun⟩ := p.run_answered m env item.id advance.version.id hmarks
    rw [heq, hrun]
    refine ⟨⟨hsent.server, ?_, fun g => ?_⟩, rfl, fun g => ?_⟩
    · exact fun row hrow => hsent.outbox row (List.mem_of_mem_filter hrow)
    · by_cases hg : g = p.gameId
      · subst hg
        refine baseConsistent_setLocalHead (v := advance.version)
          (m := ⟨m.device, (m.run (p.upload m env).1).server⟩) hstored.1 ?_ rfl rfl rfl
        by_cases hflag : m.device.state.unconfirmed p.gameId = true
        · exact Or.inl hflag
        · refine Or.inr fun snap hsnap => ?_
          by_contra hne
          refine hcurrent ⟨by simpa using hflag, snap, hsnap, fun hfiles => hne ?_⟩
          rw [hfiles]
          exact (congrArg CreateVersion.files hstored.2).symm
      · refine (hsent.base g).mono ?_ rfl rfl (Server.Le.refl _)
        exact Function.update_of_ne hg _ _
    · change Option.map _ (Function.update m.device.state.snapshots p.gameId _ g) = _
      by_cases hg : g = p.gameId
      · subst hg
        rw [Function.update_self, Option.map_map]
        rfl
      · rw [Function.update_of_ne hg]
  · have hfresh : m.FreshFor (p.upload m env).1 := by
      rw [heq] at fresh
      exact (Machine.freshFor_append.mp fresh).1
    have hsent := h.retryUpload (faithful p hp) hfresh
    rw [heq, p.run_unanswered]
    refine ⟨⟨hsent.server, fun row hrow q hq => ?_, hsent.base⟩, rfl, fun g => rfl⟩
    obtain ⟨row₀, hrow₀, rfl⟩ := List.mem_map.mp hrow
    refine hsent.outbox row₀ hrow₀ q ?_
    split at hq <;> exact hq

/-- The loop over the due entries. -/
theorem Machine.Faithful.retryLoop {env : Uuid → RetryEnv} {items : List OutboxRow}
    (h : m.Faithful)
    (faithful : ∀ item ∈ items, ∀ p, item.payload = some p →
      p.createVersion.Faithful (m.server.db.listVersions m.device.accountId p.gameId))
    (current : ∀ item ∈ items, ∀ p, item.payload = some p →
      (env item.id).fault.delivers true = true → ¬ m.device.Overtaken p)
    (fresh : m.FreshFor (retryLoop now env m items)) :
    (m.run (retryLoop now env m items)).Faithful := by
  induction items generalizing m with
  | nil => exact h
  | cons item items ih =>
      rw [Savr.retryLoop, Machine.freshFor_append] at fresh
      rw [Savr.retryLoop, Machine.run_append]
      obtain ⟨hitem, hsame⟩ :=
        h.retryItem (faithful item (by simp)) (current item (by simp)) fresh.1
      obtain ⟨-, hle, hacc⟩ := Machine.run_sound h.server.sound fresh.1
      refine ih hitem (fun i hi p hp => ?_) (fun i hi p hp hfault hover => ?_) fresh.2
      · rw [hacc]
        exact (faithful i (by simp [hi]) p hp).mono fun u hu => hle.listVersions hu
      · exact current i (by simp [hi]) p hp hfault (hsame.overtaken hover)

end Retry

/-! ### Whole runs -/

/-- A drain does not send an overtaken entry. -/
def NotOvertaken (w : World) (ev : Event) : Prop :=
  match ev.op with
  | .retry _ now env =>
      ∀ item ∈ (w.devices ev.device).state.dueOutbox now, ∀ p, item.payload = some p →
        (env item.id).fault.delivers true = true → ¬ (w.devices ev.device).Overtaken p
  | _ => True

section World

variable {w w' w₀ : World} {ev : Event} {trace : List Event}

/-- **Every operation keeps everything faithful**, unless it drains an overtaken
entry. -/
theorem Machine.Faithful.script (h : (w.machine ev.device).Faithful)
    (current : NotOvertaken w ev)
    (fresh : (w.machine ev.device).FreshFor (ev.op.script (w.machine ev.device))) :
    ((w.machine ev.device).run (ev.op.script (w.machine ev.device))).Faithful := by
  unfold NotOvertaken at current
  cases hop : ev.op with
  | backup job env =>
      rw [hop] at fresh
      exact h.runBackup job env fresh
  | retry authenticated now env =>
      rw [hop] at fresh
      simp only [hop] at current
      simp only [Op.script, retryOutbox] at fresh ⊢
      split
      · rename_i hauth
        rw [if_pos hauth] at fresh
        refine h.retryLoop (fun item hitem => h.outbox item ?_) current fresh
        rw [LocalState.dueOutbox, RankedList.mem_sortBy] at hitem
        exact List.mem_of_mem_filter hitem
      · exact h
  | restore gameId target =>
      change (Machine.run _ (runRestore _ gameId target)).Faithful
      rcases runRestore_cases (w.machine ev.device) gameId target
        (h.server.sound.wf.distinctIds _ _) with heq | ⟨v, hv, heq⟩
      · rw [heq]
        exact h
      · rw [heq]
        refine ⟨h.server, h.outbox, fun g => ?_⟩
        -- the snapshot is the target's own file list
        by_cases hg : g = gameId
        · subst hg
          exact Machine.baseConsistent_putSnapshot.mpr (Or.inr (Or.inr ⟨v, hv, rfl, rfl⟩))
        · have habout : ∀ w ∈ [Write.putSnapshot gameId v.files v.createdAt (some v.id)],
              w.about gameId := by
            simp [Write.about]
          exact baseConsistent_of_about habout hg (h.base g)
  | resolve gameId winner keepBoth id now =>
      refine h.mono ?_ rfl rfl (Server.resolve_le h.server.sound)
      exact h.server.of_versions (Server.resolve_sound h.server.sound)
        (Server.resolve_versions h.server.sound)

/-- One step of the world keeps every device faithful: what it uploads next is cut from what
it uploaded last. -/
theorem faithful_step (h : ∀ d, (w.machine d).Faithful) (step : Step w ev w')
    (completes : Completes w ev) (current : NotOvertaken w ev) (d : ℕ) :
    (w'.machine d).Faithful := by
  obtain ⟨k, -, fresh, rfl, -⟩ := step.performs
  have hacting := (h ev.device).script current fresh
  have hle := (Machine.run_sound (h ev.device).server.sound fresh).2.1
  rw [Completes] at completes
  rw [completes]
  by_cases hd : d = ev.device
  · subst hd
    rw [World.perform_machine]
    exact hacting
  · rw [World.perform_machine_of_ne w hd]
    exact (h d).mono hacting.server rfl rfl hle

/-- In a new world there is nothing to be faithful to. -/
theorem World.New.faithful (new : w.New) (d : ℕ) : (w.machine d).Faithful := by
  refine ⟨⟨new.sound, ?_⟩, ?_, ?_⟩
  · intro account gameId v hv
    rw [machine_server, new.fresh.listVersions_nil] at hv
    cases hv
  · simp [(new.devices d).outbox]
  · intro gameId snap hsnap
    rw [machine_device, (new.devices d).snapshots] at hsnap
    cases hsnap

/-- A run of complete operations that never drains an overtaken entry. -/
theorem faithful_run (new : w₀.New)
    (run : Run (under Step fun w ev => Completes w ev ∧ NotOvertaken w ev) w₀ trace w) (d : ℕ) :
    (w.machine d).Faithful :=
  run.invariant (I := fun w => ∀ d, (w.machine d).Faithful)
    (fun _ _ _ h step d => faithful_step h step.1 step.2.1 step.2.2 d) new.faithful d

/-- **Restore fidelity of the whole history.**  In every run of complete operations
that never drains an overtaken entry, every version of every history restores to the
files it declares, and every differential declares a version that has exactly the
files it is packed against. -/
theorem restore_fidelity (inj : Function.Injective Blake3.ofArchive) (new : w₀.New)
    (run : Run (under Step fun w ev => Completes w ev ∧ NotOvertaken w ev) w₀ trace w) :
    (∀ account gameId, ∀ v ∈ w.server.db.listVersions account gameId,
      ∃ merged, restoredFiles w.server account gameId v.id = some (.ok merged) ∧
        hashes merged = fileMap v.files) ∧
    ∀ d job env p, packBackup (w.devices d) job env = some p → p.create.kind = .differential →
      ∃ snap, (w.devices d).state.snapshots job.gameId = some snap ∧
        ∃ v ∈ w.server.db.listVersions (w.devices d).accountId job.gameId,
          p.create.parent = some v.id ∧ v.files = snap.files := by
  have hfaithful := faithful_run new run
  refine ⟨fun account gameId v hv => ?_, fun d job env p hp hkind => ?_⟩
  · exact (hfaithful 0).server.restores inj hv
  · exact differential_of_baseConsistent (m := w.machine d) ((hfaithful d).base job.gameId) hp hkind

end World

end General

/-! ### An online backup overtakes a queued one -/

section Example

local instance fidelityDigest : Blake3 := plainDigest

/-- A save of two files with one byte each. -/
def twoByteSave (byte extra : UInt8) : SaveSet where
  files := [⟨"extra.dat", 0, [extra]⟩, ⟨"save.dat", 0, [byte]⟩]
  sorted := by
    change ["extra.dat", "save.dat"].Pairwise (· < ·)
    decide

/-- A full; a second file, saved offline; the second file removed again, online, so
that the queued entry is overtaken; the drain of that entry; one more change. -/
def overtakenOps : List (ℕ × Op) :=
  [(0, .backup exampleJob (exampleBackup (oneByteSave 1) true .none 1)),
   (0, .backup exampleJob (exampleBackup (twoByteSave 1 1) false .none 2)),
   (0, .backup exampleJob (exampleBackup (oneByteSave 1) true .none 3)),
   (0, exampleRetry 10),
   (0, .backup exampleJob (exampleBackup (oneByteSave 2) true .none 11))]

/-- The last version is a differential against `save.dat` alone, but declares the
drained version, which has `extra.dat`: the restored save has a file too many. -/
theorem overtaken_entry_breaks_restore :
    newWorld.New ∧ Run (under Step Completes) newWorld (newWorld.events overtakenOps)
        (newWorld.after overtakenOps) ∧
      ∃ v ∈ (newWorld.after overtakenOps).server.db.listVersions 1 10,
      ∃ merged, restoredFiles (newWorld.after overtakenOps).server 1 10 v.id = some (.ok merged) ∧
        hashes merged ≠ fileMap v.files := by
  have hlisted : ∃ v ∈ (newWorld.after overtakenOps).server.db.listVersions 1 10,
      v.id = 111 ∧ fileMap v.files "extra.dat" = none := by
    decide +kernel
  have hrestored : ((restoredFiles (newWorld.after overtakenOps).server 1 10 111).bind
      Except.toOption).bind (fun merged => hashes merged "extra.dat") ≠ none := by
    decide +kernel
  refine ⟨newWorld_new, World.run_after (by decide +kernel) (World.meets_completes _ _), ?_⟩
  obtain ⟨v, hv, hid, hnone⟩ := hlisted
  refine ⟨v, hv, ?_⟩
  rw [hid]
  match hr : restoredFiles (newWorld.after overtakenOps).server 1 10 111 with
  | none => simp [hr] at hrestored
  | some (.error e) => simp [hr, Except.toOption] at hrestored
  | some (.ok merged) =>
      refine ⟨merged, rfl, fun heq => hrestored ?_⟩
      rw [hr, Option.bind_some, Except.toOption, Option.bind_some, heq, hnone]

/-- Without the overtaking backup, the drained version and the next one restore. -/
theorem restore_fidelity_drained :
    ((newWorld.after (overtakenOps.take 2 ++ overtakenOps.drop 3)).server.db.listVersions
        1 10).length = 3 ∧
      ∀ v ∈ (newWorld.after (overtakenOps.take 2 ++ overtakenOps.drop 3)).server.db.listVersions
          1 10,
        ∃ merged, restoredFiles (newWorld.after (overtakenOps.take 2 ++
            overtakenOps.drop 3)).server 1 10 v.id = some (.ok merged) ∧
          hashes merged = fileMap v.files := by
  have hdrain : NotOvertaken (newWorld.after (overtakenOps.take 2))
      { device := 0, op := exampleRetry 10, performed := [], replies := [] } := by
    have hflagged : ∀ item ∈ ((newWorld.after (overtakenOps.take 2)).devices
        0).state.dueOutbox 10, item.payload.all (fun p => ((newWorld.after
          (overtakenOps.take 2)).devices 0).state.unconfirmed p.gameId) = true := by
      decide +kernel
    intro item hitem p hp _ hover
    have hflag := hflagged item hitem
    rw [hp, Option.all_some] at hflag
    exact absurd hflag (by rw [hover.1]; decide)
  have run : Run (under Step fun w ev => Completes w ev ∧ NotOvertaken w ev) newWorld _
      (newWorld.after (overtakenOps.take 2 ++ overtakenOps.drop 3)) :=
    World.run_after (by decide +kernel)
      ⟨⟨rfl, trivial⟩, ⟨rfl, trivial⟩, ⟨rfl, hdrain⟩, ⟨rfl, trivial⟩, trivial⟩
  exact ⟨by decide +kernel,
    (restore_fidelity plainDigest_injective newWorld_new run).1 1 10⟩

end Example

end Savr
