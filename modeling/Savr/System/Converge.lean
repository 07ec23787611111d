import Savr.Server.Lineage
import Savr.Server.Replay
import Savr.System.AutoPull
import Savr.System.OneGame

/-!
# Catching up

On connecting, `connect_and_run` of `savr-daemon/src/ws.rs` reports no `seq` at all, so the
server replays every version of the account, game by game and by `seq`.  Under the policy
`auto` each of them is restored in turn: superseded heads, the device's own uploads, and
branches that lost a conflict.  The device ends with the last one that could be restored,
which need not be the head.

## Main results

* `CatchUp.run` — what the device holds after any part of the replay.
* `catch_up_converges_iff` — it ends at the head exactly when the head is the newest version
  that can be restored.
-/

namespace Savr

section General

variable [Blake3]

/-- The `last_seq` that `connect_and_run` sends. -/
def helloLastSeq : LastSeq := fun _ => none

namespace Site

/-- What the server replays on the `Hello` of the device. -/
def replay (s : Site) : List (GameId × VersionId × ℕ) :=
  s.machine.server.db.versionsSince s.machine.device.accountId helloLastSeq

/-- The device handles the messages of a replay one after the other. -/
def catchUp (c : Catalog) (env : VersionId → PullEnv) : Site → List (GameId × VersionId × ℕ) → Site
  | s, [] => s
  | s, (gameId, id, _) :: missed =>
      catchUp c env (s.onVersionAvailable c gameId id (env id)) missed

/-- What the environment decides about a pull fits the state it meets: the saves are those
on disk, drawn ids are new, requests are answered, and every merged file is iterated. -/
structure Fits (s : Site) (c : Catalog) (gameId : GameId) (target : VersionId) (env : PullEnv) :
    Prop where
  collects : ∀ entry, c.games gameId = some entry →
    entry.Collects (s.disk gameId) env.backup.saves
  fresh : ∀ entry, c.games gameId = some entry →
    s.machine.FreshFor (s.preBackup gameId env entry)
  answered : env.Answered
  complete : ∀ merged, restoredFiles s.machine.server s.machine.device.accountId gameId target =
    some (.ok merged) → ∀ p, merged p ≠ none → p ∈ env.order

/-- Each missed version fits the disk it is pulled to. -/
def FitsAll (c : Catalog) (env : VersionId → PullEnv) :
    Site → List (GameId × VersionId × ℕ) → Prop
  | _, [] => True
  | s, (gameId, id, _) :: missed =>
      s.Fits c gameId id (env id) ∧
        FitsAll c env (s.onVersionAvailable c gameId id (env id)) missed

/-- The versions of a game the device can see. -/
def versions (s : Site) (gameId : GameId) : List Version :=
  s.machine.server.db.listVersions s.machine.device.accountId gameId

/-- The current head of a game. -/
def head (s : Site) (gameId : GameId) : Option VersionId :=
  s.machine.server.db.head s.machine.device.accountId gameId

/-- The version can be restored. -/
def Restorable (s : Site) (gameId : GameId) (v : Version) : Prop :=
  ∃ merged, restoredFiles s.machine.server s.machine.device.accountId gameId v.id =
    some (.ok merged)

/-- The device is at the head: `local_head` is the head, and the saves are its files. -/
def Converged (s : Site) (gameId : GameId) (entry : GameEntry) : Prop :=
  s.machine.device.parent gameId = s.head gameId ∧
    ∀ v ∈ s.versions gameId, s.head gameId = some v.id →
      hashes (entry.covered (s.disk gameId)) = fileMap v.files

/-- A device under the policy `auto`, with save patterns and without registry keys, whose
game is not running and whose saves are what its stored snapshot lists. -/
structure Ready (s : Site) (c : Catalog) (gameId : GameId) (entry : GameEntry) : Prop where
  known : c.games gameId = some entry
  auto : c.policy gameId = .auto
  idle : c.running gameId = false
  patterns : entry.patterns ≠ []
  registryKeys : entry.registryKeys = []
  synced : ∃ snap, s.machine.device.state.snapshots gameId = some snap ∧
    hashes (entry.covered (s.disk gameId)) = fileMap snap.files

/-- What can be restored comes back as the version lists it, at paths the patterns match,
none of which another file is copied to first. -/
def Faithful (s : Site) (gameId : GameId) (entry : GameEntry) : Prop :=
  ∀ v ∈ s.versions gameId, ∀ merged,
    restoredFiles s.machine.server s.machine.device.accountId gameId v.id = some (.ok merged) →
      hashes merged = fileMap v.files ∧ entry.covered merged = merged ∧ Disk.TmpFree merged

/-- The newest version that can be restored is the head; or none can be, and the device is
at the head already. -/
def HeadNewest (s : Site) (gameId : GameId) (entry : GameEntry) : Prop :=
  (∃ v ∈ s.versions gameId, s.Restorable gameId v ∧
    (∀ u ∈ s.versions gameId, s.Restorable gameId u → u.seq ≤ v.seq) ∧
    s.head gameId = some v.id) ∨
  ((∀ u ∈ s.versions gameId, ¬ s.Restorable gameId u) ∧ s.Converged gameId entry)

end Site

/-- Part of the replay has been handled; `last` is the version of the game that was
restored last. -/
structure CatchUp (s₀ : Site) (gameId : GameId) (entry : GameEntry) (s : Site)
    (last : Option Version) : Prop where
  sound : s.machine.server.Sound
  account : s.machine.device.accountId = s₀.machine.device.accountId
  same : SameGame s₀.machine.device.accountId gameId s₀.machine.server s.machine.server
  synced : ∃ snap, s.machine.device.state.snapshots gameId = some snap ∧
    hashes (entry.covered (s.disk gameId)) = fileMap snap.files ∧
    match last with
    | none => s₀.machine.device.state.snapshots gameId = some snap ∧ s.disk gameId = s₀.disk gameId
    | some v => snap.localHead = some v.id ∧ snap.files = v.files

section Steps

variable {s₀ s : Site} {c : Catalog} {gameId : GameId} {entry : GameEntry} {last : Option Version}
  {target : VersionId} {env : PullEnv} {v : Version}

/-- What can be restored does not change along the way. -/
theorem CatchUp.restoredFiles_eq (h : CatchUp s₀ gameId entry s last)
    (inj : Function.Injective Blake3.ofArchive) (sound : s₀.machine.server.Sound)
    (target : VersionId) :
    restoredFiles s.machine.server s.machine.device.accountId gameId target =
      restoredFiles s₀.machine.server s₀.machine.device.accountId gameId target := by
  rw [h.account]
  exact restoredFiles_congr inj sound h.sound h.same.versions target

/-- The saves are what the snapshot lists, so the pre-restore backup does nothing. -/
theorem CatchUp.preBackup_eq (h : CatchUp s₀ gameId entry s last)
    (keys : entry.registryKeys = []) (collects : entry.Collects (s.disk gameId) env.backup.saves) :
    s.preBackup gameId env entry = [] := by
  obtain ⟨snap, hsnap, hmap, -⟩ := h.synced
  have hnone : packBackup s.machine.device (entry.job gameId)
      { env.backup with fullEvery := 2 ^ 32 - 1 } = none := by
    refine packBackup_eq_none_iff.mpr (Or.inr ⟨keys, snap, hsnap, ?_⟩)
    exact hmap.symm.trans (GameEntry.Collects.fileMap_eq collects).symm
  rw [Site.preBackup, runBackup_of_none hnone]

theorem CatchUp.backedUp_eq (h : CatchUp s₀ gameId entry s last)
    (keys : entry.registryKeys = []) (collects : entry.Collects (s.disk gameId) env.backup.saves) :
    s.backedUp gameId env entry = s := by
  rw [Site.backedUp, h.preBackup_eq keys collects]
  rfl

theorem CatchUp.versions_eq (h : CatchUp s₀ gameId entry s last) :
    s.versions gameId = s₀.versions gameId := by
  rw [Site.versions, h.account]
  exact h.same.versions

theorem Site.Ready.targets (ready : s₀.Ready c gameId entry) :
    ¬ (entry.patterns = [] ∧ entry.registryKeys = []) :=
  fun hempty => ready.patterns hempty.1

/-- A message about a version of the game that can be restored. -/
theorem CatchUp.restored (h : CatchUp s₀ gameId entry s last) (ready : s₀.Ready c gameId entry)
    (inj : Function.Injective Blake3.ofArchive) (sound : s₀.machine.server.Sound)
    (faithful : s₀.Faithful gameId entry) (hv : v ∈ s₀.versions gameId)
    (restorable : s₀.Restorable gameId v) (fits : s.Fits c gameId v.id env) :
    CatchUp s₀ gameId entry (s.onVersionAvailable c gameId v.id env) (some v) := by
  obtain ⟨merged, hmerged⟩ := restorable
  obtain ⟨hfiles, hcovered, free⟩ := faithful v hv merged hmerged
  have hrestorable : restoredFiles s.machine.server s.machine.device.accountId gameId v.id =
      some (.ok merged) := (h.restoredFiles_eq inj sound v.id).trans hmerged
  have collects := fits.collects entry ready.known
  obtain ⟨hrestore, hdisk⟩ := Site.restore_replaces inj h.sound ready.known ready.idle
    ready.targets collects (fits.fresh entry ready.known) fits.answered hrestorable free
    (fits.complete merged hrestorable)
  rw [h.backedUp_eq ready.registryKeys collects] at hrestore
  rw [hrestore] at hdisk
  rw [Site.onVersionAvailable_auto ready.auto ready.idle, hrestore]
  have hlisted : v ∈ s.versions gameId := by
    rw [h.versions_eq]
    exact hv
  have hwrite := runRestore_of_restored (h.sound.wf.distinctIds _ _) hlisted hrestorable
  have hmachine : (s.swapIn gameId v.id merged env.order).machine =
      s.machine.apply (.write (.putSnapshot gameId v.files v.createdAt (some v.id))) := by
    rw [Site.swapIn, hwrite]
    rfl
  refine ⟨hmachine ▸ h.sound, hmachine ▸ h.account, hmachine ▸ h.same,
    ⟨v.files, v.createdAt, some v.id⟩, ?_, ?_, rfl, rfl⟩
  · rw [hmachine]
    simp [Write.apply, LocalState.putSnapshot]
  · rw [hdisk, hcovered, hfiles]

/-- A message about a version of the game that cannot be restored. -/
theorem CatchUp.failed (h : CatchUp s₀ gameId entry s last) (ready : s₀.Ready c gameId entry)
    (inj : Function.Injective Blake3.ofArchive) (sound : s₀.machine.server.Sound)
    (stuck : ¬ s₀.Restorable gameId v) (fits : s.Fits c gameId v.id env) :
    CatchUp s₀ gameId entry (s.onVersionAvailable c gameId v.id env) last := by
  have hsame : s.onVersionAvailable c gameId v.id env = s := by
    rw [Site.onVersionAvailable_auto ready.auto ready.idle,
      Site.restore_of_known ready.known ready.idle ready.targets,
      h.backedUp_eq ready.registryKeys (fits.collects entry ready.known)]
    cases hdownload : download s.machine gameId v.id env with
    | error e => rfl
    | ok merged =>
        refine absurd ⟨merged, ?_⟩ stuck
        rw [← h.restoredFiles_eq inj sound]
        exact (download_eq_ok_iff fits.answered).mp hdownload
  rw [hsame]
  exact h

/-- A pull of one game leaves the others alone. -/
theorem Site.restore_frame (c : Catalog) (target : VersionId) (sound : s.machine.server.Sound)
    {game : GameId} (hne : gameId ≠ game)
    (fresh : ∀ entry, c.games game = some entry →
      s.machine.FreshFor (s.preBackup game env entry)) :
    let s' := (s.restore c game target env).1
    s'.machine.server.Sound ∧
      s'.machine.device.accountId = s.machine.device.accountId ∧
      SameGame s.machine.device.accountId gameId s.machine.server s'.machine.server ∧
      s'.machine.device.state.snapshots gameId = s.machine.device.state.snapshots gameId ∧
      s'.disk gameId = s.disk gameId := by
  intro s'
  have hunchanged : ∀ {s' : Site}, s' = s → s'.machine.server.Sound ∧
      s'.machine.device.accountId = s.machine.device.accountId ∧
      SameGame s.machine.device.accountId gameId s.machine.server s'.machine.server ∧
      s'.machine.device.state.snapshots gameId = s.machine.device.state.snapshots gameId ∧
      s'.disk gameId = s.disk gameId := by
    rintro s' rfl
    exact ⟨sound, rfl, SameGame.refl _, rfl, rfl⟩
  cases hknown : c.games game with
  | none =>
      refine hunchanged ?_
      simp only [s', Site.restore, hknown]
  | some entry =>
      cases hidle : c.running game with
      | true =>
          refine hunchanged ?_
          simp [s', Site.restore, hknown, hidle]
      | false =>
          by_cases htargets : entry.patterns = [] ∧ entry.registryKeys = []
          · refine hunchanged ?_
            simp [s', Site.restore, hknown, hidle, htargets]
          -- only the backup before the pull reaches the server, and it is about `game`
          · have hfresh := fresh entry hknown
            obtain ⟨sound', -, hacc⟩ := Machine.run_sound sound hfresh
            obtain ⟨hgame, hsnap⟩ := frame_of_about s.machine.device.accountId sound hfresh
              (runBackup_about _ _ _) hne
            simp only [s', Site.restore_of_known hknown hidle htargets]
            cases download (s.backedUp game env entry).machine game target env with
            | error e => exact ⟨sound', hacc, hgame, hsnap, rfl⟩
            | ok merged =>
                have hdisk : ((s.backedUp game env entry).swapIn game target merged env.order).disk
                    gameId = s.disk gameId := Function.update_of_ne hne _ _
                rcases runRestore_cases (s.backedUp game env entry).machine game target
                  (sound'.wf.distinctIds _ _) with hrun | ⟨v, -, hrun⟩
                · refine ⟨?_, ?_, ?_, ?_, hdisk⟩ <;> simp only [Site.swapIn, hrun]
                  exacts [sound', hacc, hgame, hsnap]
                · refine ⟨?_, ?_, ?_, ?_, hdisk⟩ <;> simp only [Site.swapIn, hrun]
                  exacts [sound', hacc, hgame, (Function.update_of_ne hne _ _).trans hsnap]

/-- A message about another game. -/
theorem CatchUp.other (h : CatchUp s₀ gameId entry s last) {game : GameId} (hne : gameId ≠ game)
    (fits : s.Fits c game target env) :
    CatchUp s₀ gameId entry (s.onVersionAvailable c game target env) last := by
  unfold Site.onVersionAvailable
  split
  · obtain ⟨sound', hacc, hgame, hsnap, hdisk⟩ :=
      Site.restore_frame c target h.sound hne fits.fresh
    refine ⟨sound', hacc.trans h.account, ?_, ?_⟩
    · rw [h.account] at hgame
      exact h.same.trans hgame
    · rw [hsnap, hdisk]
      exact h.synced
  · exact ⟨h.sound, h.account, h.same, h.synced⟩

/-- `last'` is the newest of the missed versions of the game that can be restored, and
`last` if there is none. -/
def Site.NewestOf (s₀ : Site) (gameId : GameId) (missed : List (GameId × VersionId × ℕ))
    (last last' : Option Version) : Prop :=
  (last' = last ∧ ∀ v ∈ s₀.versions gameId, (gameId, v.id, v.seq) ∈ missed →
      ¬ s₀.Restorable gameId v) ∨
    ∃ v ∈ s₀.versions gameId, last' = some v ∧ s₀.Restorable gameId v ∧
      (gameId, v.id, v.seq) ∈ missed ∧
      ∀ u ∈ s₀.versions gameId, (gameId, u.id, u.seq) ∈ missed → s₀.Restorable gameId u →
        u.seq ≤ v.seq

section Newest

variable {missed : List (GameId × VersionId × ℕ)} {last' : Option Version}

/-- A message that names no version of the game that can be restored. -/
theorem Site.NewestOf.skip (h : s₀.NewestOf gameId missed last last') {msg : GameId × VersionId × ℕ}
    (hskip : ∀ u ∈ s₀.versions gameId, (gameId, u.id, u.seq) ∈ msg :: missed →
      s₀.Restorable gameId u → (gameId, u.id, u.seq) ∈ missed) :
    s₀.NewestOf gameId (msg :: missed) last last' := by
  refine h.imp ?_ ?_
  · rintro ⟨rfl, hnone⟩
    exact ⟨rfl, fun u hu hmem hur => hnone u hu (hskip u hu hmem hur) hur⟩
  · rintro ⟨w, hw, rfl, hwr, hwm, hmax⟩
    exact ⟨w, hw, rfl, hwr, List.mem_cons_of_mem _ hwm, fun u hu hmem hur =>
      hmax u hu (hskip u hu hmem hur) hur⟩

/-- A message that names one: it is the newest unless something newer follows. -/
theorem Site.NewestOf.cons (h : s₀.NewestOf gameId missed (some v) last')
    (hv : v ∈ s₀.versions gameId) (restorable : s₀.Restorable gameId v)
    (hfirst : ∀ id seq, (gameId, id, seq) ∈ missed → v.seq ≤ seq) :
    s₀.NewestOf gameId ((gameId, v.id, v.seq) :: missed) last last' := by
  refine Or.inr ?_
  rcases h with ⟨rfl, hnone⟩ | ⟨w, hw, rfl, hwr, hwm, hmax⟩
  · refine ⟨v, hv, rfl, restorable, List.mem_cons_self, fun u hu hmem hur => ?_⟩
    rcases List.mem_cons.mp hmem with heq | hmem
    · simp only [Prod.mk.injEq] at heq
      exact heq.2.2.le
    · exact absurd hur (hnone u hu hmem)
  · refine ⟨w, hw, rfl, hwr, List.mem_cons_of_mem _ hwm, fun u hu hmem hur => ?_⟩
    rcases List.mem_cons.mp hmem with heq | hmem
    · simp only [Prod.mk.injEq] at heq
      exact heq.2.2.le.trans (hfirst _ _ hwm)
    · exact hmax u hu hmem hur

end Newest

/-- **Any part of the replay.**  The version restored last is the newest of those of the
game that can be restored, or there was none. -/
theorem CatchUp.run {env : VersionId → PullEnv} {missed : List (GameId × VersionId × ℕ)}
    (h : CatchUp s₀ gameId entry s last) (ready : s₀.Ready c gameId entry)
    (inj : Function.Injective Blake3.ofArchive) (sound : s₀.machine.server.Sound)
    (faithful : s₀.Faithful gameId entry)
    (hmissed : ∀ id seq, (gameId, id, seq) ∈ missed →
      ∃ v ∈ s₀.versions gameId, v.id = id ∧ v.seq = seq)
    (ordered : missed.Pairwise fun a b => a.1 = b.1 → a.2.2 ≤ b.2.2)
    (fits : Site.FitsAll c env s missed) :
    ∃ last', CatchUp s₀ gameId entry (Site.catchUp c env s missed) last' ∧
      s₀.NewestOf gameId missed last last' := by
  have distinct : DistinctIds (s₀.versions gameId) := sound.wf.distinctIds _ _
  induction missed generalizing s last with
  | nil => exact ⟨last, h, Or.inl ⟨rfl, by simp⟩⟩
  | cons msg missed ih =>
      obtain ⟨game, id, seq⟩ := msg
      obtain ⟨fit, fits⟩ := fits
      obtain ⟨hfirst, hordered⟩ := List.pairwise_cons.mp ordered
      have hrest : ∀ id seq, (gameId, id, seq) ∈ missed →
          ∃ v ∈ s₀.versions gameId, v.id = id ∧ v.seq = seq := fun id seq hmem =>
        hmissed id seq (List.mem_cons_of_mem _ hmem)
      by_cases hgame : gameId = game
      · subst hgame
        obtain ⟨v, hv, rfl, rfl⟩ := hmissed id seq List.mem_cons_self
        by_cases hrestorable : s₀.Restorable gameId v
        · obtain ⟨last', hlast, hnewest⟩ := ih
            (h.restored ready inj sound faithful hv hrestorable fit) hrest hordered fits
          exact ⟨last', hlast, hnewest.cons hv hrestorable fun id seq hmem => hfirst _ hmem rfl⟩
        · obtain ⟨last', hlast, hnewest⟩ := ih
            (h.failed ready inj sound hrestorable fit) hrest hordered fits
          refine ⟨last', hlast, hnewest.skip fun u hu hmem hur => ?_⟩
          rcases List.mem_cons.mp hmem with heq | hmem
          · simp only [Prod.mk.injEq] at heq
            obtain rfl := List.inj_on_of_nodup_map distinct hu hv heq.2.1
            exact absurd hur hrestorable
          · exact hmem
      · obtain ⟨last', hlast, hnewest⟩ := ih (h.other hgame fit) hrest hordered fits
        refine ⟨last', hlast, hnewest.skip fun u hu hmem _ => ?_⟩
        rcases List.mem_cons.mp hmem with heq | hmem
        · exact absurd (Prod.mk.inj heq).1 hgame
        · exact hmem

theorem CatchUp.head_eq (h : CatchUp s₀ gameId entry s last) : s.head gameId = s₀.head gameId := by
  rw [Site.head, h.account]
  exact h.same.head

/-- Nothing was restored: the device is where it was. -/
theorem CatchUp.converged_none (h : CatchUp s₀ gameId entry s none) :
    s.Converged gameId entry ↔ s₀.Converged gameId entry := by
  obtain ⟨snap, hsnap, -, hsnap₀, hdisk⟩ := h.synced
  unfold Site.Converged
  rw [h.head_eq, h.versions_eq, hdisk, Device.parent, Device.parent, hsnap, hsnap₀]

/-- The device is where the version restored last took it. -/
theorem CatchUp.converged_some (h : CatchUp s₀ gameId entry s (some v))
    (sound : s₀.machine.server.Sound) (hv : v ∈ s₀.versions gameId) :
    s.Converged gameId entry ↔ s₀.head gameId = some v.id := by
  obtain ⟨snap, hsnap, hmap, hlocal, hfiles⟩ := h.synced
  have hparent : s.machine.device.parent gameId = some v.id := by
    rw [Device.parent, hsnap]
    exact hlocal
  unfold Site.Converged
  rw [h.head_eq, h.versions_eq, hparent]
  constructor
  · exact fun hconv => hconv.1.symm
  · intro hhead
    refine ⟨hhead.symm, fun u hu hid => ?_⟩
    rw [hhead] at hid
    obtain rfl := List.inj_on_of_nodup_map (sound.wf.distinctIds _ _) hv hu (Option.some.inj hid)
    rw [hmap, hfiles]

/-- Versions of a game with the same `seq` are the same. -/
theorem Site.eq_of_seq (sound : s.machine.server.Sound) {u : Version} (hu : u ∈ s.versions gameId)
    (hv : v ∈ s.versions gameId) (hseq : u.seq = v.seq) : u = v := by
  obtain ⟨urow, hurow, hug, -, rfl⟩ := Db.mem_listVersions.mp hu
  obtain ⟨vrow, hvrow, hvg, -, rfl⟩ := Db.mem_listVersions.mp hv
  rw [sound.wf.seqUnique urow hurow vrow hvrow (hug.trans hvg.symm) hseq]

omit [Blake3] in
/-- The replay has every version of the game. -/
theorem Site.mem_replay (hpos : ∀ row ∈ s.machine.server.db.versions, 0 < row.seq) {id : VersionId}
    {seq : ℕ} :
    (gameId, id, seq) ∈ s.replay ↔ ∃ v ∈ s.versions gameId, v.id = id ∧ v.seq = seq := by
  rw [Site.replay, Db.mem_versionsSince]
  constructor
  · rintro ⟨-, row, hrow, hacc, hgame, rfl, rfl⟩
    exact ⟨row.toVersion, Db.mem_listVersions.mpr ⟨row, hrow, hgame, hacc, rfl⟩, rfl, rfl⟩
  · rintro ⟨v, hv, rfl, rfl⟩
    obtain ⟨row, hrow, hgame, hacc, rfl⟩ := Db.mem_listVersions.mp hv
    exact ⟨hpos row hrow, row, hrow, hacc, hgame, rfl, rfl⟩

end Steps

/-- **When catching up converges.**  For every server history whose versions restore to what
they list, and every device under the policy `auto` whose saves are its stored snapshot and
whose game is not running: after it has handled the replay of the `Hello` it sends,
`local_head` is the head and the saves are the head's files exactly when the head is the
newest version that can be restored. -/
theorem catch_up_converges_iff {s : Site} {c : Catalog} {gameId : GameId} {entry : GameEntry}
    {env : VersionId → PullEnv} {s₀ : Server} {trace : List ServerEvent}
    (inj : Function.Injective Blake3.ofArchive) (fresh : s₀.db.Fresh)
    (history : LabelledRun.Run ServerStep s₀ trace s.machine.server)
    (sound : s.machine.server.Sound) (ready : s.Ready c gameId entry)
    (faithful : s.Faithful gameId entry) (fits : Site.FitsAll c env s s.replay) :
    (Site.catchUp c env s s.replay).Converged gameId entry ↔ s.HeadNewest gameId entry := by
  have hpos := serverRun_seq_pos fresh history
  obtain ⟨snap, hsnap, hmap⟩ := ready.synced
  have init : CatchUp s gameId entry s none :=
    ⟨sound, rfl, SameGame.refl _, snap, hsnap, hmap, hsnap, rfl⟩
  obtain ⟨last, hcatch, hcases⟩ := init.run ready inj sound faithful
    (fun id seq hmem => (Site.mem_replay hpos).mp hmem) (Db.versionsSince_ordered _ _ _) fits
  have hall : ∀ v ∈ s.versions gameId, (gameId, v.id, v.seq) ∈ s.replay := fun v hv =>
    (Site.mem_replay hpos).mpr ⟨v, hv, rfl, rfl⟩
  rcases hcases with ⟨rfl, hnone⟩ | ⟨v, hv, rfl, hrestorable, -, hmax⟩
  -- nothing could be restored, so the device is where it started
  · have hstuck : ∀ u ∈ s.versions gameId, ¬ s.Restorable gameId u := fun u hu =>
      hnone u hu (hall u hu)
    rw [hcatch.converged_none, Site.HeadNewest]
    constructor
    · exact fun hconv => Or.inr ⟨hstuck, hconv⟩
    · rintro (⟨v, hv, hrestorable, -⟩ | ⟨-, hconv⟩)
      · exact absurd hrestorable (hstuck v hv)
      · exact hconv
  · rw [hcatch.converged_some sound hv, Site.HeadNewest]
    constructor
    · intro hhead
      exact Or.inl ⟨v, hv, hrestorable, fun u hu => hmax u hu (hall u hu), hhead⟩
    · rintro (⟨w, hw, hwr, hwmax, hhead⟩ | ⟨hstuck, -⟩)
      -- two newest versions have one number, and numbers are unique in a game
      · have hseq : w.seq = v.seq :=
          le_antisymm (hmax w hw (hall w hw) hwr) (hwmax v hv hrestorable)
        rw [← Site.eq_of_seq sound hw hv hseq]
        exact hhead
      · exact absurd hrestorable (hstuck v hv)

end General

/-! ### A losing branch is restored last -/

section Example

local instance convergeDigest : Blake3 := plainDigest

theorem plainDigest_ofBytes_injective : Function.Injective plainDigest.ofBytes := by
  intro a b h
  exact (PrefixCode.list PrefixCode.byte).injective (Blake3Hash.mk.inj h)

/-- Every version of the history has the one file of the examples. -/
def OneFile (s : Site) : Prop :=
  ∀ v ∈ s.versions 10, v.files.map FileEntry.relPath = ["save.dat"]

section

variable {s₀ s : Site} {last : Option Version} {v : Version} {merged : String → Option Bytes}

/-- What a version of the example restores to has the one file. -/
theorem OneFile.path_eq (one : OneFile s₀) (hv : v ∈ s₀.versions 10)
    (hfiles : hashes merged = fileMap v.files) {p : String} (hp : merged p ≠ none) :
    p = "save.dat" := by
  have hlisted : fileMap v.files p ≠ none := by
    rw [← hfiles, hashes]
    simpa using hp
  have hmem : p ∈ v.files.map FileEntry.relPath := by
    by_contra hnot
    exact hlisted (fileMap_eq_none_iff.mpr hnot)
  rw [one v hv] at hmem
  exact List.mem_singleton.mp hmem

/-- The example's server restores what it declares. -/
theorem OneFile.faithful (one : OneFile s₀) (h : s₀.machine.server.Faithful) :
    s₀.Faithful 10 exampleEntry := by
  intro v hv merged hmerged
  obtain ⟨merged', hmerged', hfiles⟩ := h.restores plainDigest_injective hv
  rw [hmerged] at hmerged'
  obtain rfl : merged = merged' := Except.ok.inj (Option.some.inj hmerged')
  refine ⟨hfiles, rfl, fun p q hp hq _ => ?_⟩
  rw [one.path_eq hv hfiles hp, one.path_eq hv hfiles hq]

/-- The saves that the snapshot lists are those on disk, and nothing is backed up. -/
theorem CatchUp.example_fits (h : CatchUp s₀ 10 exampleEntry s last)
    (sound : s₀.machine.server.Sound) (one : OneFile s₀) (faithful : s₀.Faithful 10 exampleEntry)
    (hv : v ∈ s₀.versions 10) (byte : UInt8) (now : Timestamp)
    (hsnap : (s.machine.device.state.snapshots 10).map StoredSnapshot.files =
      some ((oneByteSave byte).files.map SaveFile.entry)) :
    s.Fits exampleCatalog 10 v.id (examplePull (oneByteSave byte) now) := by
  obtain ⟨snap, hs, hmap, -⟩ := h.synced
  rw [hs] at hsnap
  have hfiles := Option.some.inj hsnap
  have collects : exampleEntry.Collects (s.disk 10) (oneByteSave byte) := by
    intro path
    have hhash : ((oneByteSave byte).read path).map Blake3.ofBytes =
        (exampleEntry.covered (s.disk 10) path).map Blake3.ofBytes := by
      have hcollects : exampleEntry.Collects (oneByteSave byte).read (oneByteSave byte) :=
        fun _ => rfl
      have hread := hcollects.fileMap_eq
      rw [← hfiles, ← hmap] at hread
      exact (congrFun hread path).symm
    exact Option.map_injective plainDigest_ofBytes_injective hhash
  refine ⟨?_, ?_, ⟨rfl, fun _ => rfl⟩, ?_⟩
  · rintro entry hentry
    obtain rfl : exampleEntry = entry := Option.some.inj hentry
    exact collects
  · rintro entry hentry
    obtain rfl : exampleEntry = entry := Option.some.inj hentry
    rw [h.preBackup_eq rfl collects]
    exact trivial
  · intro merged hmerged p hp
    rw [h.restoredFiles_eq plainDigest_injective sound] at hmerged
    rw [one.path_eq hv (faithful v hv merged hmerged).1 hp]
    exact List.mem_singleton.mpr rfl

end

/-- What the examples below have in common. -/
theorem siteAfter_facts (ops : List (ℕ × Op)) (byte : UInt8) (fresh : pairedWorld.FreshOps ops)
    (meets : pairedWorld.Meets (fun w ev => Completes w ev ∧ NotOvertaken w ev) ops)
    (hsnap : ((siteAfter ops byte).machine.device.state.snapshots 10).map StoredSnapshot.files =
      some ((oneByteSave byte).files.map SaveFile.entry)) :
    (∃ trace, LabelledRun.Run ServerStep pairedWorld.server trace
        (siteAfter ops byte).machine.server) ∧
      (siteAfter ops byte).machine.server.Faithful ∧
      (siteAfter ops byte).Ready exampleCatalog 10 exampleEntry := by
  have run := World.run_after fresh meets
  refine ⟨World.serverRun (run.mono fun _ _ _ h => h.1),
    (faithful_run pairedWorld_new run 0).server, ⟨rfl, rfl, rfl, by decide, rfl, ?_⟩⟩
  obtain ⟨snap, hs, hfiles⟩ := Option.map_eq_some_iff.mp hsnap
  refine ⟨snap, hs, ?_⟩
  rw [hfiles, ← (siteAfter_collects ops byte).fileMap_eq]

/-- Device 21 has not played since its backup, and device 22 has.  Both versions are
restored in turn, the head last. -/
theorem idle_site_converges :
    (Site.catchUp exampleCatalog (fun id => examplePull (oneByteSave 1) id) idleSite
      idleSite.replay).Converged 10 exampleEntry := by
  obtain ⟨⟨trace, history⟩, server, ready⟩ :=
    siteAfter_facts otherDevicePlays 1 (by decide +kernel)
      ⟨⟨rfl, trivial⟩, ⟨rfl, trivial⟩, ⟨rfl, trivial⟩, trivial⟩ (by decide +kernel)
  have one : OneFile idleSite := by
    unfold OneFile
    decide +kernel
  have sound := server.sound
  have faithful := one.faithful server
  have hreplay : idleSite.replay = [(10, 101, 1), (10, 102, 2)] := by decide +kernel
  obtain ⟨v, hv, hvid⟩ : ∃ v ∈ idleSite.versions 10, v.id = 101 := by decide +kernel
  obtain ⟨w, hw, hwid, hwmax, hwhead⟩ : ∃ w ∈ idleSite.versions 10, w.id = 102 ∧
      (∀ u ∈ idleSite.versions 10, u.seq ≤ w.seq) ∧ idleSite.head 10 = some w.id := by
    decide +kernel
  have hrestorable : ∀ u ∈ idleSite.versions 10, idleSite.Restorable 10 u := fun u hu =>
    (server.restores plainDigest_injective hu).imp fun _ h => h.1
  obtain ⟨snap, hs, hmap⟩ := ready.synced
  have init : CatchUp idleSite 10 exampleEntry idleSite none :=
    ⟨sound, rfl, SameGame.refl _, snap, hs, hmap, hs, rfl⟩
  have fit₁ := init.example_fits sound one faithful hv 1 v.id (by decide +kernel)
  have h₁ := init.restored ready plainDigest_injective sound faithful hv (hrestorable v hv) fit₁
  have fit₂ := h₁.example_fits sound one faithful hw 1 w.id (by rw [hvid]; decide +kernel)
  rw [hvid] at fit₁ fit₂
  rw [hwid] at fit₂
  have fits : Site.FitsAll exampleCatalog (fun id => examplePull (oneByteSave 1) id) idleSite
      idleSite.replay := by
    rw [hreplay]
    exact ⟨fit₁, fit₂, trivial⟩
  refine (catch_up_converges_iff plainDigest_injective pairedWorld_new.fresh history sound ready
    faithful fits).mpr (Or.inl ⟨w, hw, hrestorable w hw, fun u hu _ => hwmax u hu, hwhead⟩)

/-- The same, and device 21 backs up a save of its own, which branches off. -/
def bothDevicesPlay : List (ℕ × Op) :=
  [(0, .backup exampleJob (exampleBackup (oneByteSave 1) true .none 1)),
   (1, .restore 10 101),
   (1, .backup exampleJob { exampleBackup (oneByteSave 3) true .none 2 with deviceId := 22 }),
   (0, .backup exampleJob (exampleBackup (oneByteSave 2) true .none 3))]

/-- The site of the third device, after both others have played. -/
def branchedSite : Site := siteAfter bothDevicesPlay 2

/-- The saves found on disk when the versions 101, 102 and 103 come in. -/
def branchedPull (id : VersionId) : PullEnv :=
  examplePull (oneByteSave (if id = 101 then 2 else if id = 102 then 1 else 3)) id

/-- The head is the version of device 22.  The branch is newer, so it is restored after
it, and that is where device 21 ends. -/
theorem losing_branch_restored_last :
    (∃ trace, LabelledRun.Run ServerStep pairedWorld.server trace branchedSite.machine.server) ∧
      branchedSite.Ready exampleCatalog 10 exampleEntry ∧
      branchedSite.Faithful 10 exampleEntry ∧
      Site.FitsAll exampleCatalog branchedPull branchedSite branchedSite.replay ∧
      branchedSite.head 10 = some 102 ∧
      (Site.catchUp exampleCatalog branchedPull branchedSite
        branchedSite.replay).machine.device.parent 10 = some 103 ∧
      ¬ (Site.catchUp exampleCatalog branchedPull branchedSite
        branchedSite.replay).Converged 10 exampleEntry := by
  obtain ⟨history, server, ready⟩ :=
    siteAfter_facts bothDevicesPlay 2 (by decide +kernel)
      ⟨⟨rfl, trivial⟩, ⟨rfl, trivial⟩, ⟨rfl, trivial⟩, ⟨rfl, trivial⟩, trivial⟩
      (by decide +kernel)
  have one : OneFile branchedSite := by
    unfold OneFile
    decide +kernel
  have sound := server.sound
  have faithful := one.faithful server
  have hreplay : branchedSite.replay = [(10, 101, 1), (10, 102, 2), (10, 103, 3)] := by
    decide +kernel
  obtain ⟨u, hu, huid⟩ : ∃ u ∈ branchedSite.versions 10, u.id = 101 := by decide +kernel
  obtain ⟨v, hv, hvid⟩ : ∃ v ∈ branchedSite.versions 10, v.id = 102 := by decide +kernel
  obtain ⟨w, hw, hwid⟩ : ∃ w ∈ branchedSite.versions 10, w.id = 103 := by decide +kernel
  have hrestorable : ∀ x ∈ branchedSite.versions 10, branchedSite.Restorable 10 x := fun x hx =>
    (server.restores plainDigest_injective hx).imp fun _ h => h.1
  obtain ⟨snap, hs, hmap⟩ := ready.synced
  have init : CatchUp branchedSite 10 exampleEntry branchedSite none :=
    ⟨sound, rfl, SameGame.refl _, snap, hs, hmap, hs, rfl⟩
  have fit₁ := init.example_fits sound one faithful hu 2 u.id (by decide +kernel)
  have h₁ := init.restored ready plainDigest_injective sound faithful hu (hrestorable u hu) fit₁
  have fit₂ := h₁.example_fits sound one faithful hv 1 v.id (by rw [huid]; decide +kernel)
  have h₂ := h₁.restored ready plainDigest_injective sound faithful hv (hrestorable v hv) fit₂
  have fit₃ := h₂.example_fits sound one faithful hw 3 w.id
    (by rw [huid, hvid]; decide +kernel)
  rw [huid] at fit₁ fit₂ fit₃
  rw [hvid] at fit₂ fit₃
  rw [hwid] at fit₃
  have hhead : branchedSite.head 10 = some 102 := by decide +kernel
  have hlocal : (Site.catchUp exampleCatalog branchedPull branchedSite
      branchedSite.replay).machine.device.parent 10 = some 103 := by decide +kernel
  refine ⟨history, ready, faithful, ?_, hhead, hlocal, fun hconv => ?_⟩
  · rw [hreplay]
    exact ⟨fit₁, fit₂, fit₃, trivial⟩
  · have hfinal := hconv.1
    rw [hlocal] at hfinal
    revert hfinal
    decide +kernel

end Example

end Savr
