import Savr.Server.Gc

/-!
# A whole retention run

`run_gc` goes over the accounts and their games one after the other, and each
deletion is a transaction of its own.  In a database that satisfies its invariant
none of them fails, and what one game loses does not change what another keeps.

## Main results

* `doomed_congr` — pruning other games leaves the verdict on a game as it was.
* `runGc_spec` — a run removes exactly the versions that are not `Kept` in the
  state it started from.
-/

namespace Savr

namespace Db

/-- The version with this id is one that retention does not keep. -/
def Doomed (db : Db) (account : AccountId) (gameId : GameId) (id : VersionId) : Prop :=
  ∃ u ∈ db.gcVersions account gameId, u.id = id ∧
    ¬ db.Kept account gameId (db.configRetention account) u

theorem Doomed.mem {db : Db} {account : AccountId} {gameId : GameId} {id : VersionId}
    (h : db.Doomed account gameId id) : ∃ v ∈ db.gameRows account gameId, v.id = id := by
  obtain ⟨u, hu, rfl, -⟩ := h
  obtain ⟨v, hv, rfl⟩ := mem_gcVersions.mp hu
  exact ⟨v, hv, rfl⟩

/-- What `prune_game` deletes. -/
theorem mem_filter_notMem_keptVersions {db : Db} {account : AccountId} {gameId : GameId}
    (keys : db.VersionKeys) {retention : Retention} {u : GcVersion} :
    u ∈ (db.gcVersions account gameId).filter (fun v => v ∉ db.keptVersions account gameId
        (db.head account gameId) retention (db.gcVersions account gameId)) ↔
      u ∈ db.gcVersions account gameId ∧ ¬ db.Kept account gameId retention u := by
  simp only [List.mem_filter, decide_eq_true_eq, mem_keptVersions_iff keys]
  tauto

/-- A version is in one game only. -/
theorem VersionKeys.game_unique {db : Db} (keys : db.VersionKeys) {account account' : AccountId}
    {gameId gameId' : GameId} {v w : VersionRow} (hv : v ∈ db.gameRows account gameId)
    (hw : w ∈ db.gameRows account' gameId') (hid : v.id = w.id) :
    account = account' ∧ gameId = gameId' := by
  obtain ⟨hv, hvg, hva⟩ := mem_gameRows.mp hv
  obtain ⟨hw, hwg, hwa⟩ := mem_gameRows.mp hw
  obtain rfl := List.inj_on_of_nodup_map keys.ids hv hw hid
  exact ⟨hva.symm.trans hwa, hvg.symm.trans hwg⟩

end Db

namespace Server

variable {s s' : Server} {dead : VersionId → Bool} {account : AccountId} {gameId : GameId}

/-- The dead versions are gone, whatever that did to blobs, and nothing else of the
database changed. -/
structure Thinned (dead : VersionId → Bool) (s s' : Server) : Prop where
  versions : s'.db.versions = Db.prunedRows dead s.db.versions
  accounts : s'.db.accounts = s.db.accounts
  games : s'.db.games = s.db.games
  config : s'.db.config = s.db.config
  resolvedConflicts : s'.db.resolvedConflicts = s.db.resolvedConflicts

theorem PrunedBy.thinned (h : PrunedBy dead s s') : Thinned dead s s' :=
  ⟨h.versions, h.accounts, h.games, h.config, h.resolvedConflicts⟩

/-- The rows of a game that are left. -/
theorem Thinned.gameRows (h : Thinned dead s s') :
    s'.db.gameRows account gameId =
      ((s.db.gameRows account gameId).filter fun v => !dead v.id).map (Db.clearParent dead) := by
  rw [Db.gameRows, h.versions, Db.prunedRows, List.filter_map, List.filter_map,
    List.filter_filter, Db.gameRows, List.filter_filter]
  refine congrArg _ (List.filter_congr fun v _ => ?_)
  simp [Bool.and_comm]

/-- The rows of a game none of whose versions died. -/
theorem Thinned.gameRows_of_alive (h : Thinned dead s s')
    (alive : ∀ v ∈ s.db.gameRows account gameId, dead v.id = false) :
    s'.db.gameRows account gameId =
      (s.db.gameRows account gameId).map (Db.clearParent dead) := by
  rw [h.gameRows, List.filter_eq_self.mpr fun v hv => by simp [alive v hv]]

/-- A game with no dead version reads as before. -/
theorem Thinned.gcVersions (h : Thinned dead s s')
    (alive : ∀ v ∈ s.db.gameRows account gameId, dead v.id = false) :
    s'.db.gcVersions account gameId = s.db.gcVersions account gameId := by
  rw [Db.gcVersions, h.gameRows_of_alive alive, List.map_map]
  have hmap : Db.gcVersion ∘ Db.clearParent dead = Db.gcVersion := by
    funext v
    exact Db.gcVersion_clearParent
  rw [hmap, Db.gcVersions]

theorem Thinned.head (h : Thinned dead s s') :
    s'.db.head account gameId = s.db.head account gameId := by
  rw [Db.head, Db.head, Db.findGame, Db.findGame, h.games]

theorem Thinned.configRetention (h : Thinned dead s s') :
    s'.db.configRetention account = s.db.configRetention account := by
  rw [Db.configRetention, Db.configRetention, h.config]

/-- Where nothing of a game is deleted, the same versions are in use. -/
theorem Thinned.protected (h : Thinned dead s s')
    (alive : ∀ v ∈ s.db.gameRows account gameId, dead v.id = false) {id : VersionId}
    (hid : dead id = false) :
    s'.db.Protected account gameId id ↔ s.db.Protected account gameId id := by
  rw [Db.Protected, Db.Protected, h.head, h.gameRows_of_alive alive, h.resolvedConflicts]
  refine or_congr_right (and_congr_left fun _ => ?_)
  constructor
  · intro hfree v hv hp
    exact hfree _ (List.mem_map.mpr ⟨v, hv, rfl⟩)
      (Db.clearParent_parent_eq_some.mpr ⟨hp, hid⟩)
  · intro hfree w hw hp
    obtain ⟨v, hv, rfl⟩ := List.mem_map.mp hw
    exact hfree v hv (Db.clearParent_parent_eq_some.mp hp).1

/-- What happens to other games does not change what a game keeps. -/
theorem Thinned.kept (h : Thinned dead s s')
    (alive : ∀ v ∈ s.db.gameRows account gameId, dead v.id = false) {retention : Retention}
    {u : Db.GcVersion} (hu : u ∈ s.db.gcVersions account gameId) :
    s'.db.Kept account gameId retention u ↔ s.db.Kept account gameId retention u := by
  have hprot : ∀ v ∈ s.db.gcVersions account gameId,
      (s'.db.Protected account gameId v.id ↔ s.db.Protected account gameId v.id) := by
    intro v hv
    obtain ⟨row, hrow, rfl⟩ := Db.mem_gcVersions.mp hv
    exact h.protected alive (alive row hrow)
  unfold Db.Kept
  rw [h.gcVersions alive]
  refine or_congr (hprot u hu) (or_congr_left ?_)
  exact exists_congr fun v => and_congr_right fun hv => and_congr_left fun _ => hprot v hv

theorem Thinned.doomed_congr (h : Thinned dead s s')
    (alive : ∀ v ∈ s.db.gameRows account gameId, dead v.id = false) {id : VersionId} :
    s'.db.Doomed account gameId id ↔ s.db.Doomed account gameId id := by
  unfold Db.Doomed
  rw [h.gcVersions alive, h.configRetention]
  refine exists_congr fun u => and_congr_right fun hu => and_congr_right fun _ => ?_
  exact not_congr (h.kept alive hu)

/-! ### The loops -/

/-- Deleting several versions, none of them a head. -/
theorem deleteRows_spec {vs : List Db.GcVersion} (wf : s.db.WF)
    (hnd : (vs.map Db.GcVersion.id).Nodup)
    (hmem : ∀ u ∈ vs, ∃ v ∈ s.db.versions, Db.gcVersion v = u)
    (hheads : ∀ u ∈ vs, ∀ g ∈ s.db.games, g.head ≠ some u.id) (stats : GcStats) :
    ∃ s' stats', deleteRows vs (s, stats) = (s', .ok stats') ∧
      PrunedBy (fun id => id ∈ vs.map Db.GcVersion.id) s s' := by
  induction vs generalizing s stats with
  | nil => exact ⟨s, stats, rfl, (PrunedBy.refl wf).congr (by simp)⟩
  | cons u vs ih =>
      rw [List.map_cons, List.nodup_cons] at hnd
      obtain ⟨v, hv, rfl⟩ := hmem u (by simp)
      obtain ⟨s₁, stats₁, hdel, hpruned⟩ :=
        deleteVersionAndDeref_spec wf hv (hheads (Db.gcVersion v) (by simp)) stats
      have hmem₁ : ∀ u ∈ vs, ∃ v ∈ s₁.db.versions, Db.gcVersion v = u := by
        intro u hu
        obtain ⟨w, hw, rfl⟩ := hmem u (by simp [hu])
        have hne : w.id ≠ v.id := fun h => hnd.1 (List.mem_map.mpr ⟨_, hu, h⟩)
        rw [hpruned.versions]
        exact ⟨_, Db.mem_prunedRows.mpr ⟨w, hw, by simpa using hne, rfl⟩, by simp⟩
      have hheads₁ : ∀ u ∈ vs, ∀ g ∈ s₁.db.games, g.head ≠ some u.id := by
        rw [hpruned.games]
        exact fun u hu => hheads u (by simp [hu])
      obtain ⟨s₂, stats₂, hrest, hpruned₂⟩ := ih hpruned.wf hnd.2 hmem₁ hheads₁ stats₁
      refine ⟨s₂, stats₂, ?_, (hpruned.trans hpruned₂).congr ?_⟩
      · rw [deleteRows, show s.deleteVersionAndDeref (Db.gcVersion v).id
          (Db.gcVersion v).blobHash stats = .ok (s₁, stats₁) from hdel]
        exact hrest
      · intro id
        simp [Db.gcVersion, Db.GcVersion.ofVersion]

/-- One game. -/
theorem pruneGame_spec (wf : s.db.WF) (account : AccountId) (gameId : GameId)
    (stats : GcStats) :
    ∃ s' stats' dead, s.pruneGame account gameId (s.db.head account gameId)
        (s.db.configRetention account) stats = (s', .ok stats') ∧
      PrunedBy dead s s' ∧ ∀ id, dead id = true ↔ s.db.Doomed account gameId id := by
  let doomed := (s.db.gcVersions account gameId).filter fun v =>
    v ∉ s.db.keptVersions account gameId (s.db.head account gameId)
      (s.db.configRetention account) (s.db.gcVersions account gameId)
  have hdoomed : ∀ u, u ∈ doomed ↔ u ∈ s.db.gcVersions account gameId ∧
      ¬ s.db.Kept account gameId (s.db.configRetention account) u :=
    fun _ => Db.mem_filter_notMem_keptVersions wf.versionKeys
  have hnd : (doomed.map Db.GcVersion.id).Nodup := by
    have hids : ((s.db.gcVersions account gameId).map Db.GcVersion.id).Nodup := by
      have hperm : (s.db.gcVersions account gameId).Perm
          ((s.db.gameRows account gameId).map Db.gcVersion) := RankedList.sortBy_perm _
      rw [(hperm.map _).nodup_iff, List.map_map]
      exact wf.versionIds.sublist (List.filter_sublist.map _)
    exact hids.sublist (List.filter_sublist.map _)
  have hmem : ∀ u ∈ doomed, ∃ v ∈ s.db.versions, Db.gcVersion v = u := by
    intro u hu
    obtain ⟨v, hv, rfl⟩ := Db.mem_gcVersions.mp ((hdoomed u).mp hu).1
    exact ⟨v, (Db.mem_gameRows.mp hv).1, rfl⟩
  have hheads : ∀ u ∈ doomed, ∀ g ∈ s.db.games, g.head ≠ some u.id := by
    intro u hu g hg hhead
    obtain ⟨hu, hnot⟩ := (hdoomed u).mp hu
    obtain ⟨v, hv, rfl⟩ := Db.mem_gcVersions.mp hu
    -- a head lives in its own game, so this is the head of the game being pruned
    obtain ⟨w, hw, hwid, hwg, hwa⟩ := wf.headOwned g hg _ hhead
    obtain ⟨rfl, rfl⟩ := wf.versionKeys.game_unique (Db.mem_gameRows.mpr ⟨hw, hwg, hwa⟩) hv hwid
    refine hnot (Or.inl (Or.inl ?_))
    rw [Db.head, Db.findGame_of_mem wf.gameIds hg]
    exact hhead
  obtain ⟨s', stats', hrun, hpruned⟩ := deleteRows_spec wf hnd hmem hheads stats
  refine ⟨s', stats', _, hrun, hpruned, fun id => ?_⟩
  rw [decide_eq_true_eq, List.mem_map, Db.Doomed]
  constructor
  · rintro ⟨u, hu, hid⟩
    exact ⟨u, ((hdoomed u).mp hu).1, hid, ((hdoomed u).mp hu).2⟩
  · rintro ⟨u, hu, hid, hnot⟩
    exact ⟨u, (hdoomed u).mpr ⟨hu, hnot⟩, hid⟩

/-- After games other than this one were pruned. -/
theorem PrunedBy.doomed_of_off (wf : s.db.WF) (h : PrunedBy dead s s')
    (hoff : ∀ id, dead id = true → ∃ account' gameId', s.db.Doomed account' gameId' id ∧
      (account', gameId') ≠ (account, gameId)) {id : VersionId} :
    s'.db.Doomed account gameId id ↔ s.db.Doomed account gameId id := by
  refine h.thinned.doomed_congr fun v hv => ?_
  by_contra hdead
  obtain ⟨account', gameId', hdoomed, hne⟩ := hoff v.id (by simpa using hdead)
  obtain ⟨w, hw, hid⟩ := hdoomed.mem
  obtain ⟨ha, hg⟩ := wf.versionKeys.game_unique hw hv hid
  exact hne (Prod.ext ha hg)

/-- The games of one account. -/
theorem pruneGames_spec {games : List GameRow} (wf : s.db.WF)
    (hnd : (games.map GameRow.id).Nodup) (account : AccountId) (stats : GcStats) :
    ∃ s' stats' dead, pruneGames account (s.db.configRetention account) games (s, stats) =
        (s', .ok stats') ∧ PrunedBy dead s s' ∧
      ∀ id, dead id = true ↔ ∃ g ∈ games, s.db.Doomed account g.id id := by
  induction games generalizing s stats with
  | nil => exact ⟨s, stats, _, rfl, PrunedBy.refl wf, by simp⟩
  | cons g games ih =>
      rw [List.map_cons, List.nodup_cons] at hnd
      obtain ⟨s₁, stats₁, dead₁, hrun₁, hpruned₁, hdead₁⟩ :=
        pruneGame_spec wf account g.id stats
      obtain ⟨s₂, stats₂, dead₂, hrun₂, hpruned₂, hdead₂⟩ := ih hpruned₁.wf hnd.2 stats₁
      refine ⟨s₂, stats₂, _, ?_, hpruned₁.trans hpruned₂, fun id => ?_⟩
      · rw [hpruned₁.thinned.configRetention] at hrun₂
        rw [pruneGames, hrun₁]
        exact hrun₂
      · have hother : ∀ g' ∈ games,
            (s₁.db.Doomed account g'.id id ↔ s.db.Doomed account g'.id id) := by
          intro g' hg'
          refine hpruned₁.doomed_of_off wf fun id hid => ⟨account, g.id, (hdead₁ id).mp hid, ?_⟩
          intro heq
          exact hnd.1 (List.mem_map.mpr ⟨g', hg', (Prod.mk.inj heq).2.symm⟩)
        rw [Bool.or_eq_true, hdead₁, hdead₂, List.exists_mem_cons_iff]
        exact or_congr_right (exists_congr fun g' => and_congr_right (hother g'))

/-- All accounts. -/
theorem pruneAccounts_spec {accounts : List AccountId} (wf : s.db.WF) (hnd : accounts.Nodup)
    (stats : GcStats) :
    ∃ s' stats' dead, pruneAccounts accounts (s, stats) = (s', .ok stats') ∧
      PrunedBy dead s s' ∧
      ∀ id, dead id = true ↔
        ∃ account ∈ accounts, ∃ g ∈ s.db.games, g.accountId = account ∧
          s.db.Doomed account g.id id := by
  induction accounts generalizing s stats with
  | nil => exact ⟨s, stats, _, rfl, PrunedBy.refl wf, by simp⟩
  | cons account accounts ih =>
      rw [List.nodup_cons] at hnd
      have hgames : ((s.db.games.filter fun g => g.accountId = account).map GameRow.id).Nodup :=
        wf.gameIds.sublist (List.filter_sublist.map _)
      obtain ⟨s₁, stats₁, dead₁, hrun₁, hpruned₁, hdead₁⟩ :=
        pruneGames_spec wf hgames account stats
      obtain ⟨s₂, stats₂, dead₂, hrun₂, hpruned₂, hdead₂⟩ := ih hpruned₁.wf hnd.2 stats₁
      refine ⟨s₂, stats₂, _, ?_, hpruned₁.trans hpruned₂, fun id => ?_⟩
      · rw [pruneAccounts, hrun₁]
        exact hrun₂
      · have hfirst : dead₁ id = true ↔
            ∃ g ∈ s.db.games, g.accountId = account ∧ s.db.Doomed account g.id id := by
          rw [hdead₁]
          constructor
          · rintro ⟨g, hg, hdoomed⟩
            obtain ⟨hg, hacc⟩ := List.mem_filter.mp hg
            exact ⟨g, hg, by simpa using hacc, hdoomed⟩
          · rintro ⟨g, hg, hacc, hdoomed⟩
            exact ⟨g, List.mem_filter.mpr ⟨hg, by simpa using hacc⟩, hdoomed⟩
        have hother : ∀ account' ∈ accounts, ∀ gameId,
            (s₁.db.Doomed account' gameId id ↔ s.db.Doomed account' gameId id) := by
          intro account' hacc' gameId
          refine hpruned₁.doomed_of_off wf fun id hid => ?_
          obtain ⟨g, -, hdoomed⟩ := (hdead₁ id).mp hid
          refine ⟨account, g.id, hdoomed, fun heq => hnd.1 ?_⟩
          rw [(Prod.mk.inj heq).1]
          exact hacc'
        rw [Bool.or_eq_true, hfirst, hdead₂, hpruned₁.games, List.exists_mem_cons_iff]
        refine or_congr_right (exists_congr fun account' => and_congr_right fun hacc' => ?_)
        exact exists_congr fun g => and_congr_right fun _ => and_congr_right fun _ =>
          hother account' hacc' g.id

/-- **A whole run.**  It succeeds, keeps the invariant, and removes exactly the
versions that retention does not keep in the state the run started from. -/
theorem runGc_spec (wf : s.db.WF) :
    ∃ s' stats dead, s.runGc = (s', .ok stats) ∧ PrunedBy dead s s' ∧
      ∀ v ∈ s.db.versions, dead v.id = true ↔
        ¬ s.db.Kept v.accountId v.gameId (s.db.configRetention v.accountId)
          (Db.gcVersion v) := by
  obtain ⟨s', stats, dead, hrun, hpruned, hdead⟩ := pruneAccounts_spec wf wf.accountIds default
  refine ⟨s', stats, dead, hrun, hpruned, fun v hv => ?_⟩
  have hrow : v ∈ s.db.gameRows v.accountId v.gameId := Db.mem_gameRows.mpr ⟨hv, rfl, rfl⟩
  rw [hdead]
  constructor
  · rintro ⟨account, -, g, -, -, u, hu, hid, hnot⟩
    obtain ⟨w, hw, rfl⟩ := Db.mem_gcVersions.mp hu
    obtain ⟨rfl, hgame⟩ := wf.versionKeys.game_unique hw hrow hid
    obtain rfl := List.inj_on_of_nodup_map wf.versionIds (Db.mem_gameRows.mp hw).1 hv hid
    rwa [hgame] at hnot
  · intro hnot
    obtain ⟨g, hg, hgid, hgacc⟩ := wf.gameOwned v hv
    refine ⟨v.accountId, hgacc ▸ wf.accountOwned g hg, g, hg, hgacc, Db.gcVersion v, ?_, rfl, ?_⟩
    · rw [hgid]
      exact Db.mem_gcVersions.mpr ⟨v, hrow, rfl⟩
    · rw [hgid]
      exact hnot

/-- A run leaves the heads alone. -/
theorem head_runGc (wf : s.db.WF) (account : AccountId) (gameId : GameId) :
    s.runGc.1.db.head account gameId = s.db.head account gameId := by
  obtain ⟨s', stats, dead, hrun, hpruned, -⟩ := runGc_spec wf
  rw [hrun]
  exact hpruned.thinned.head

/-- What a run leaves was there before, up to its parent. -/
theorem of_mem_runGc (wf : s.db.WF) {v' : VersionRow} (hv' : v' ∈ s.runGc.1.db.versions) :
    ∃ v ∈ s.db.versions, v'.id = v.id ∧ v'.accountId = v.accountId ∧ v'.gameId = v.gameId ∧
      v'.seq = v.seq := by
  obtain ⟨s', stats, dead, hrun, hpruned, -⟩ := runGc_spec wf
  rw [hrun, hpruned.versions] at hv'
  obtain ⟨v, hv, -, rfl⟩ := Db.mem_prunedRows.mp hv'
  exact ⟨v, hv, by simp, by simp, by simp, by simp⟩

/-- What retention keeps is there after the run. -/
theorem survives_runGc (wf : s.db.WF) {v : VersionRow} (hv : v ∈ s.db.versions)
    (hkept : s.db.Kept v.accountId v.gameId (s.db.configRetention v.accountId)
      (Db.gcVersion v)) :
    ∃ v' ∈ s.runGc.1.db.versions,
      v'.gameId = v.gameId ∧ v'.seq = v.seq ∧ v'.kind = v.kind := by
  obtain ⟨s', stats, dead, hrun, hpruned, hdead⟩ := runGc_spec wf
  have halive : dead v.id = false := by
    rw [← Bool.not_eq_true, hdead v hv, not_not]
    exact hkept
  rw [hrun, hpruned.versions]
  exact ⟨_, Db.mem_prunedRows.mpr ⟨v, hv, halive, rfl⟩, by simp, by simp, by simp⟩

end Server

end Savr
