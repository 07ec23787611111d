import Savr.Daemon.Chain
import Savr.Server.GcRun
import Savr.Server.HeadCas

/-!
# What retention keeps restorable

The daemon rebuilds a version along its parent pointers (`build_chain`); the
server groups differentials by the nearest full before them in `seq` order and
keeps the newest of each group.  The comment on `run_gc` calls this safe because
"a differential is taken against the last *full*"; the daemon takes it against
its previous backup, so a chain may run through differentials that are not among
the newest of their group.

`gc_keeps_chain_iff` says exactly when a restorable version stays restorable: when
retention keeps every version of its chain.
-/

namespace Savr

open LabelledRun PointerWalk

/-- What happens to the server: a transaction of the API, a change of the synced
config, or a retention run. -/
inductive ServerEvent
  | tx (event : TxEvent)
  | config (rows : List ConfigRow)
  | gc

/-- A transaction, a change of the settings or a retention run. -/
inductive ServerStep : Server → ServerEvent → Server → Prop
  | tx {s : Server} {event : TxEvent} {db : Db} (objects : Blake3Hash → Option Archive) :
      TxStep s.db event db → ServerStep s (.tx event) { db, objects }
  | config {s : Server} (rows : List ConfigRow) :
      ServerStep s (.config rows) { s with db := { s.db with config := rows } }
  | gc {s : Server} : ServerStep s .gc s.runGc.1

variable {s s' s₀ : Server} {trace : List ServerEvent} {account : AccountId} {gameId : GameId}

/-- Every step of the server keeps the database well formed. -/
theorem ServerStep.wf {event : ServerEvent} (h : ServerStep s event s') (wf : s.db.WF) :
    s'.db.WF := by
  cases h with
  | tx objects step => exact step.wf wf
  | config rows =>
      exact ⟨wf.accountIds, wf.accountOwned, wf.gameIds, wf.versionIds, wf.seqUnique,
        wf.headOwned, wf.gameOwned, wf.parentOlder, wf.blobHashes, wf.blobStored, wf.refcounts⟩
  | gc =>
      obtain ⟨s', stats, dead, hrun, hpruned, -⟩ := Server.runGc_spec wf
      rw [hrun]
      exact hpruned.wf

theorem serverRun_wf (run : Run ServerStep s₀ trace s) (wf : s₀.db.WF) : s.db.WF :=
  run.invariant (I := fun t => t.db.WF) (fun _ _ _ wf step => step.wf wf) wf

/-! ### Chains across a run -/

/-- The version without a pointer to a dead one. -/
def dropParent (dead : VersionId → Bool) (v : Version) : Version :=
  match v.parent with
  | some p => if dead p then { v with parent := none } else v
  | none => v

theorem toVersion_clearParent (dead : VersionId → Bool) (v : VersionRow) :
    (Db.clearParent dead v).toVersion = dropParent dead v.toVersion := by
  unfold Db.clearParent dropParent
  cases hp : v.parent with
  | none => rfl
  | some p => cases hd : dead p <;> simp [hd]

/-- Dropping a dead parent changes nothing else of a version. -/
theorem dropParent_eq (dead : VersionId → Bool) (v : Version) :
    ∃ parent, dropParent dead v = { v with parent := parent } := by
  unfold dropParent
  split
  · split
    · exact ⟨none, rfl⟩
    · exact ⟨v.parent, rfl⟩
  · exact ⟨v.parent, rfl⟩

/-- What is listed after some versions died. -/
theorem mem_listVersions_of_pruned {dead : VersionId → Bool}
    (h : Server.PrunedBy dead s s') {v : Version} :
    v ∈ s'.db.listVersions account gameId ↔
      ∃ u ∈ s.db.listVersions account gameId, dead u.id = false ∧ dropParent dead u = v := by
  simp only [Db.mem_listVersions, h.versions, Db.mem_prunedRows]
  constructor
  · rintro ⟨_, ⟨row, hrow, halive, rfl⟩, hg, ha, rfl⟩
    refine ⟨row.toVersion, ⟨row, hrow, by simpa using hg, by simpa using ha, rfl⟩, halive, ?_⟩
    exact (toVersion_clearParent dead row).symm
  · rintro ⟨_, ⟨row, hrow, hg, ha, rfl⟩, halive, rfl⟩
    exact ⟨_, ⟨row, hrow, halive, rfl⟩, by simpa using hg, by simpa using ha,
      toVersion_clearParent dead row⟩

/-- A chain all of whose versions live is still there, version for version. -/
theorem chainTo_of_pruned {dead : VersionId → Bool} (wf : s.db.WF)
    (h : Server.PrunedBy dead s s') {target : VersionId} {chain : List Version}
    (chainTo : ChainTo (s.db.listVersions account gameId) target chain)
    (alive : ∀ u ∈ chain, dead u.id = false) :
    ChainTo (s'.db.listVersions account gameId) target (chain.map (dropParent dead)) := by
  have distinct := wf.distinctIds account gameId
  have distinct' := h.wf.distinctIds account gameId
  refine WalkTo.map chainTo ?_ ?_ ?_
  · intro k v hv hk
    obtain ⟨hlisted, rfl⟩ := (byId_eq_some_iff distinct).mp hk
    refine (byId_eq_some_iff distinct').mpr ⟨?_, ?_⟩
    · exact (mem_listVersions_of_pruned h).mpr ⟨v, hlisted, alive v hv, rfl⟩
    · obtain ⟨_, heq⟩ := dropParent_eq dead v
      rw [heq]
  · intro v _
    obtain ⟨_, heq⟩ := dropParent_eq dead v
    rw [heq]
    rfl
  · -- a differential points into the chain, so its pointer survives
    intro v hv hdiff
    obtain ⟨p, hp, u, hu, rfl⟩ := chainTo.mem_of_parent distinct v hv hdiff
    simp [dropParent, hp, alive u hu]

/-- One version's chain survives a run exactly when all of it is kept. -/
theorem chain_survives_iff (wf : s.db.WF) {target : VersionId} {chain : List Version}
    (restorable : buildChain (s.db.listVersions account gameId) target = some (.ok chain)) :
    (∃ chain', buildChain (s.runGc.1.db.listVersions account gameId) target =
          some (.ok chain') ∧
        List.Forall₂ (fun u u' => { u' with parent := u.parent } = u) chain chain') ↔
      ∀ u ∈ chain, s.db.Kept account gameId (s.db.configRetention account)
        (Db.GcVersion.ofVersion u) := by
  have distinct := wf.distinctIds account gameId
  have chainTo := (buildChain_eq_ok_iff distinct).mp restorable
  obtain ⟨s', stats, dead, hrun, hpruned, hdead⟩ := Server.runGc_spec wf
  have distinct' := hpruned.wf.distinctIds account gameId
  have halive : ∀ u ∈ chain, (dead u.id = false ↔ s.db.Kept account gameId
      (s.db.configRetention account) (Db.GcVersion.ofVersion u)) := by
    intro u hu
    have hlisted := chainTo.mem distinct u (by simpa using hu)
    obtain ⟨row, hrow, rfl, rfl, rfl⟩ := Db.mem_listVersions.mp hlisted
    rw [← Bool.not_eq_true, hdead row hrow, not_not]
    rfl
  rw [hrun]
  constructor
  · rintro ⟨chain', hbuild, hsame⟩ u hu
    -- the image of `u` is listed after the run, so `u` did not die
    obtain ⟨i, hi, rfl⟩ := List.mem_iff_getElem.mp hu
    have hi' : i < chain'.length := hsame.length_eq ▸ hi
    have hlisted' : chain'[i] ∈ s'.db.listVersions account gameId :=
      ((buildChain_eq_ok_iff distinct').mp hbuild).mem distinct' _ (by simp)
    obtain ⟨w, -, hw, hweq⟩ := (mem_listVersions_of_pruned hpruned).mp hlisted'
    obtain ⟨_, hdrop⟩ := dropParent_eq dead w
    have hid : chain[i].id = w.id := by
      have hrel : { chain'[i] with parent := chain[i].parent } = chain[i] := hsame.get hi hi'
      rw [← hrel, ← hweq, hdrop]
    rw [← halive _ hu, hid]
    exact hw
  · intro hkept
    have alive : ∀ u ∈ chain.reverse, dead u.id = false := fun u hu =>
      (halive u (by simpa using hu)).mpr (hkept u (by simpa using hu))
    refine ⟨chain.map (dropParent dead), ?_, ?_⟩
    · rw [buildChain_eq_ok_iff distinct', ← List.map_reverse]
      exact chainTo_of_pruned wf hpruned chainTo alive
    · rw [List.forall₂_map_right_iff, List.forall₂_same]
      intro u _
      obtain ⟨_, hdrop⟩ := dropParent_eq dead u
      rw [hdrop]

/-- **What retention keeps restorable.**  In every reachable state, `run_gc` leaves
every restorable head and unresolved tip of a game restorable through the same
versions if and only if each version on the chain of such a head or tip is itself
protected, or the nearest full before a protected one, or among the newest fulls,
or among the newest differentials behind one of these. -/
theorem gc_keeps_protected_restorable_iff (fresh : s₀.db.Fresh)
    (run : Run ServerStep s₀ trace s) (account : AccountId) (gameId : GameId) :
    (∀ target chain, s.db.Protected account gameId target →
      buildChain (s.db.listVersions account gameId) target = some (.ok chain) →
      ∃ chain', buildChain (s.runGc.1.db.listVersions account gameId) target =
          some (.ok chain') ∧
        List.Forall₂ (fun u u' => { u' with parent := u.parent } = u) chain chain') ↔
    ∀ target chain, s.db.Protected account gameId target →
      buildChain (s.db.listVersions account gameId) target = some (.ok chain) →
      ∀ u ∈ chain, s.db.Kept account gameId (s.db.configRetention account)
        (Db.GcVersion.ofVersion u) := by
  have wf := serverRun_wf run fresh.wf
  constructor
  · intro keeps target chain hp restorable
    exact (chain_survives_iff wf restorable).mp (keeps target chain hp restorable)
  · intro kept target chain hp restorable
    exact (chain_survives_iff wf restorable).mpr (kept target chain hp restorable)

/-! ### A chain that is cut -/

/-- One account that keeps one full and one differential per full, so that three versions are
enough for a prune. -/
def smallRetentionServer : Server where
  db :=
    { accounts := [1]
      devices := [⟨21, 1, "pc21", .linux, "", none, false⟩]
      blobs := [⟨⟨[1]⟩, 100, 0, 0⟩, ⟨⟨[2]⟩, 100, 0, 0⟩, ⟨⟨[3]⟩, 100, 0, 0⟩]
      games := [⟨10, 1, "Game", none, none⟩]
      versions := []
      config := [⟨1, "tag", { (default : SyncedConfig) with retention := ⟨1, 1⟩ }⟩]
      resolvedConflicts := [] }
  objects := fun _ => none

/-- The `n`-th backup of a save that changes each time: a full, then differentials,
each on the version before it. -/
def chainedBackup (n : ℕ) : CreateCall where
  account := 1
  gameId := 10
  req :=
    { parent := if n = 1 then none else some (100 + (n - 1))
      kind := if n = 1 then .full else .differential
      files := [⟨"save.dat", 1, 0, ⟨[0, n]⟩⟩]
      blobHash := ⟨[n]⟩
      bytes := 100
      deviceId := 21 }
  id := 100 + n
  now := n

/-- The server after `n` chained backups. -/
def afterBackups : ℕ → Server
  | 0 => smallRetentionServer
  | n + 1 => { afterBackups n with db := ((afterBackups n).db.create (chainedBackup (n + 1))).1 }

theorem smallRetentionServer_fresh : smallRetentionServer.db.Fresh :=
  ⟨by decide, by decide, by decide, by decide, rfl, by decide, by decide⟩

/-- One more backup is a step of the server. -/
theorem afterBackups_step (n : ℕ) (fresh : (chainedBackup (n + 1)).Fresh (afterBackups n).db) :
    Run ServerStep (afterBackups n) [.tx (.create (chainedBackup (n + 1))
      ((afterBackups n).db.create (chainedBackup (n + 1))).2)] (afterBackups (n + 1)) :=
  Run.single (ServerStep.tx _ (TxStep.create _ fresh))

theorem afterBackups_reachable :
    ∃ trace, Run ServerStep smallRetentionServer trace (afterBackups 3) :=
  ⟨_, ((afterBackups_step 0 ⟨by decide, by decide⟩).trans
    (afterBackups_step 1 ⟨by decide, by decide⟩)).trans
    (afterBackups_step 2 ⟨by decide, by decide⟩)⟩

/-- Full, differential, differential: the head is restorable, retention keeps the
full and the newest differential, and the head is not restorable any more. -/
theorem gc_cuts_head_chain :
    smallRetentionServer.db.Fresh ∧
      (∃ trace, Run ServerStep smallRetentionServer trace (afterBackups 3)) ∧
      (afterBackups 3).db.head 1 10 = some 103 ∧
      (∃ chain, buildChain ((afterBackups 3).db.listVersions 1 10) 103 = some (.ok chain)) ∧
      buildChain ((afterBackups 3).runGc.1.db.listVersions 1 10) 103 =
        some (.error (.neverFull 103)) :=
  ⟨smallRetentionServer_fresh, afterBackups_reachable, by decide, ⟨_, rfl⟩, by decide⟩

/-- The condition fails there: the middle of the chain is not kept. -/
theorem afterBackups_chain_not_kept :
    ¬ ∀ target chain, (afterBackups 3).db.Protected 1 10 target →
      buildChain ((afterBackups 3).db.listVersions 1 10) target = some (.ok chain) →
      ∀ u ∈ chain, (afterBackups 3).db.Kept 1 10 ((afterBackups 3).db.configRetention 1)
        (Db.GcVersion.ofVersion u) := by
  obtain ⟨trace, run⟩ := afterBackups_reachable
  rw [← gc_keeps_protected_restorable_iff smallRetentionServer_fresh run]
  intro keeps
  obtain ⟨chain', hbuild, -⟩ := keeps 103 _ (Or.inl (by decide)) rfl
  have hcut : buildChain ((afterBackups 3).runGc.1.db.listVersions 1 10) 103 =
      some (.error (.neverFull 103)) := by decide
  rw [hcut] at hbuild
  cases hbuild

end Savr
