import Savr.Lib.Retained
import Savr.Server.Retention

/-!
# Two retention runs in a row

What a run removes changes what the next one looks at: rows are gone, parents are
cleared, so tips, owning fulls and the newest of each group are computed anew.  The
second run finds nothing to remove all the same.

Nothing is assumed of parents, heads and reference counts here, only the keys of
the table `versions`; then a run may fail, and the statement is about one that does
not.

## Main results

* `settled_of_thinned` — a game that lost what retention does not keep has nothing
  more to lose.
* `runGc_runGc` — after a run that succeeded, the next one changes nothing.
-/

namespace Savr

open RankedList

namespace Db

/-- Retention has nothing to remove from the game. -/
def Settled (db : Db) (account : AccountId) (gameId : GameId) : Prop :=
  ∀ u ∈ db.gcVersions account gameId, db.Kept account gameId (db.configRetention account) u

/-- The marks of `prune_game` are a retention by groups: a full and the
differentials behind it. -/
theorem kept_iff_retained {db : Db} {account : AccountId} {gameId : GameId}
    {retention : Retention} {u : GcVersion} :
    db.Kept account gameId retention u ↔
      Retained GcVersion.seq GcVersion.isFull (fun v => db.Protected account gameId v.id)
        retention.full retention.diffPerFull (db.gcVersions account gameId) u :=
  Iff.rfl

end Db

namespace Server

variable {s s' s'' : Server} {dead dead' : VersionId → Bool} {account : AccountId}
  {gameId : GameId} {stats stats' : GcStats}

/-! ### What a deletion that succeeds does -/

theorem Thinned.refl (s : Server) : Thinned (fun _ => false) s s :=
  ⟨(Db.prunedRows_none _).symm, rfl, rfl, rfl, rfl⟩

theorem Thinned.trans (first : Thinned dead s s') (second : Thinned dead' s' s'') :
    Thinned (fun id => dead id || dead' id) s s'' where
  versions := by rw [second.versions, first.versions, Db.prunedRows_prunedRows]
  accounts := second.accounts.trans first.accounts
  games := second.games.trans first.games
  config := second.config.trans first.config
  resolvedConflicts := second.resolvedConflicts.trans first.resolvedConflicts

theorem Thinned.congr (h : Thinned dead s s') (heq : ∀ id, dead id = dead' id) :
    Thinned dead' s s' := by
  obtain rfl : dead = dead' := funext heq
  exact h

/-- A deletion takes one version away. -/
theorem thinned_of_deleteVersionAndDeref {id : VersionId} {hash : Blake3Hash}
    (h : s.deleteVersionAndDeref id hash stats = .ok (s', stats')) :
    Thinned (fun i => i = id) s s' := by
  have hrows : (s.db.versions.map (Db.clearParent fun p => decide (p = id))).filter
      (fun v => decide (v.id ≠ id)) = Db.prunedRows (fun i => decide (i = id)) s.db.versions := by
    simp [Db.prunedRows]
  unfold deleteVersionAndDeref at h
  simp only [hrows] at h
  split at h
  · cases h
  · split at h
    · split at h
      · cases h
      · obtain ⟨rfl, rfl⟩ := Prod.mk.inj (Except.ok.inj h)
        exact ⟨rfl, rfl, rfl, rfl, rfl⟩
    · obtain ⟨rfl, rfl⟩ := Prod.mk.inj (Except.ok.inj h)
      exact ⟨rfl, rfl, rfl, rfl, rfl⟩

/-- Deletions take these versions away. -/
theorem thinned_of_deleteRows {vs : List Db.GcVersion}
    (h : deleteRows vs (s, stats) = (s', .ok stats')) :
    Thinned (fun id => id ∈ vs.map Db.GcVersion.id) s s' := by
  induction vs generalizing s stats with
  | nil =>
      obtain ⟨rfl, -⟩ := Prod.mk.inj h
      exact (Thinned.refl s).congr (by simp)
  | cons v vs ih =>
      cases hdel : s.deleteVersionAndDeref v.id v.blobHash stats with
      | error e =>
          rw [deleteRows, hdel] at h
          exact absurd (Prod.mk.inj h).2 (by simp)
      | ok next =>
          rw [deleteRows, hdel] at h
          refine ((thinned_of_deleteVersionAndDeref hdel).trans (ih h)).congr fun id => ?_
          simp

/-- A game whose pruning succeeds loses exactly what retention does not keep. -/
theorem thinned_of_pruneGame (keys : s.db.VersionKeys)
    (h : s.pruneGame account gameId (s.db.head account gameId) (s.db.configRetention account)
      stats = (s', .ok stats')) :
    ∃ dead, Thinned dead s s' ∧ ∀ id, dead id = true ↔ s.db.Doomed account gameId id := by
  refine ⟨_, thinned_of_deleteRows h, fun id => ?_⟩
  rw [decide_eq_true_eq, List.mem_map, Db.Doomed]
  constructor
  · rintro ⟨u, hu, hid⟩
    obtain ⟨hu, hnot⟩ := (Db.mem_filter_notMem_keptVersions keys).mp hu
    exact ⟨u, hu, hid, hnot⟩
  · rintro ⟨u, hu, hid, hnot⟩
    exact ⟨u, (Db.mem_filter_notMem_keptVersions keys).mpr ⟨hu, hnot⟩, hid⟩

/-! ### The game that was pruned -/

/-- The living versions are read as before, and the dead ones not at all. -/
theorem Thinned.mem_gcVersions (h : Thinned dead s s') {u : Db.GcVersion} :
    u ∈ s'.db.gcVersions account gameId ↔
      u ∈ s.db.gcVersions account gameId ∧ dead u.id = false := by
  rw [Db.mem_gcVersions, Db.mem_gcVersions, h.gameRows]
  simp only [List.mem_map, List.mem_filter, Bool.not_eq_true']
  constructor
  · rintro ⟨_, ⟨v, ⟨hv, halive⟩, rfl⟩, rfl⟩
    rw [Db.gcVersion_clearParent]
    exact ⟨⟨v, hv, rfl⟩, halive⟩
  · rintro ⟨⟨v, hv, rfl⟩, halive⟩
    exact ⟨_, ⟨v, ⟨hv, halive⟩, rfl⟩, Db.gcVersion_clearParent⟩

/-- A thinned game has some of the versions it had, each as often. -/
theorem Thinned.gcVersions_subperm (h : Thinned dead s s') :
    (s'.db.gcVersions account gameId).Subperm (s.db.gcVersions account gameId) := by
  have hmap : Db.gcVersion ∘ Db.clearParent dead = Db.gcVersion := by
    funext v
    exact Db.gcVersion_clearParent
  have hsub : ((s'.db.gameRows account gameId).map Db.gcVersion).Sublist
      ((s.db.gameRows account gameId).map Db.gcVersion) := by
    rw [h.gameRows, List.map_map, hmap]
    exact List.filter_sublist.map _
  exact (sortBy_perm _).subperm.trans (hsub.subperm.trans (sortBy_perm _).symm.subperm)

/-- A version that is left is protected if it was: pointers at it only disappear. -/
theorem Thinned.protected_of_protected (h : Thinned dead s s') {id : VersionId}
    (hprot : s.db.Protected account gameId id) : s'.db.Protected account gameId id := by
  rw [Db.Protected, h.head, h.resolvedConflicts]
  refine hprot.imp_right fun hfree => ⟨fun w hw hp => ?_, hfree.2⟩
  rw [h.gameRows] at hw
  obtain ⟨v, hv, rfl⟩ := List.mem_map.mp hw
  exact hfree.1 v (List.mem_filter.mp hv).1 (Db.clearParent_parent_eq_some.mp hp).1

/-- **A game that lost what retention does not keep has nothing more to lose.** -/
theorem settled_of_thinned (h : Thinned dead s s')
    (hdead : ∀ id, dead id = true ↔ s.db.Doomed account gameId id) (keys : s.db.VersionKeys) :
    s'.db.Settled account gameId := by
  have hkept : ∀ u ∈ s.db.gcVersions account gameId, u ∈ s'.db.gcVersions account gameId ↔
      s.db.Kept account gameId (s.db.configRetention account) u := by
    intro u hu
    rw [h.mem_gcVersions, ← Bool.not_eq_true, hdead]
    refine ⟨fun hleft => ?_, fun hkept => ⟨hu, ?_⟩⟩
    · by_contra hnot
      exact hleft.2 ⟨u, hu, rfl, hnot⟩
    · -- ids are unique, so no other version with this id is doomed either
      rintro ⟨w, hw, hid, hnot⟩
      obtain ⟨v, hv, rfl⟩ := Db.mem_gcVersions.mp hu
      obtain ⟨x, hx, rfl⟩ := Db.mem_gcVersions.mp hw
      have hsame : x = v := List.inj_on_of_nodup_map keys.ids (Db.mem_gameRows.mp hx).1
        (Db.mem_gameRows.mp hv).1 hid
      exact hnot (hsame ▸ hkept)
  intro u hu
  rw [h.configRetention, Db.kept_iff_retained]
  exact retained_of_retained h.gcVersions_subperm hkept
    (fun v _ hprot => h.protected_of_protected hprot) hu

/-- Nothing happens to a game from which there is nothing to remove. -/
theorem pruneGame_of_settled (keys : s.db.VersionKeys) (settled : s.db.Settled account gameId)
    (stats : GcStats) :
    s.pruneGame account gameId (s.db.head account gameId) (s.db.configRetention account)
      stats = (s, .ok stats) := by
  have hnone : (s.db.gcVersions account gameId).filter (fun v => v ∉ s.db.keptVersions account
      gameId (s.db.head account gameId) (s.db.configRetention account)
      (s.db.gcVersions account gameId)) = [] := by
    refine List.eq_nil_iff_forall_not_mem.mpr fun u hu => ?_
    obtain ⟨hu, hnot⟩ := (Db.mem_filter_notMem_keptVersions keys).mp hu
    exact hnot (settled u hu)
  rw [pruneGame, hnone]
  rfl

/-! ### All games -/

/-- How far a run has come: games that are settled stay so. -/
structure Settling (s s' : Server) : Prop where
  keys : s'.db.VersionKeys
  accounts : s'.db.accounts = s.db.accounts
  games : s'.db.games = s.db.games
  retention : ∀ account, s'.db.configRetention account = s.db.configRetention account
  settled : ∀ account gameId, s.db.Settled account gameId → s'.db.Settled account gameId

theorem Settling.refl (keys : s.db.VersionKeys) : Settling s s :=
  ⟨keys, rfl, rfl, fun _ => rfl, fun _ _ h => h⟩

theorem Settling.trans (first : Settling s s') (second : Settling s' s'') : Settling s s'' where
  keys := second.keys
  accounts := second.accounts.trans first.accounts
  games := second.games.trans first.games
  retention account := (second.retention account).trans (first.retention account)
  settled account gameId h := second.settled account gameId (first.settled account gameId h)

/-- One game. -/
theorem settling_of_pruneGame (keys : s.db.VersionKeys)
    (h : s.pruneGame account gameId (s.db.head account gameId) (s.db.configRetention account)
      stats = (s', .ok stats')) : Settling s s' ∧ s'.db.Settled account gameId := by
  obtain ⟨dead, hthin, hdead⟩ := thinned_of_pruneGame keys h
  have hsettled := settled_of_thinned hthin hdead keys
  refine ⟨⟨keys.prune dead hthin.versions, hthin.accounts, hthin.games,
    fun account => hthin.configRetention, fun account' gameId' hother => ?_⟩, hsettled⟩
  by_cases hsame : (account', gameId') = (account, gameId)
  · obtain ⟨rfl, rfl⟩ := Prod.mk.inj hsame
    exact hsettled
  · -- no version of another game died
    have alive : ∀ v ∈ s.db.gameRows account' gameId', dead v.id = false := by
      intro v hv
      by_contra hd
      obtain ⟨w, hw, hid⟩ := ((hdead v.id).mp (by simpa using hd)).mem
      obtain ⟨ha, hg⟩ := keys.game_unique hw hv hid
      exact hsame (Prod.ext ha.symm hg.symm)
    intro u hu
    rw [hthin.gcVersions alive] at hu
    rw [hthin.configRetention, hthin.kept alive hu]
    exact hother u hu

/-- The games of an account are settled once they were pruned. -/
theorem settling_of_pruneGames {games : List GameRow} (keys : s.db.VersionKeys)
    (h : pruneGames account (s.db.configRetention account) games (s, stats) =
      (s', .ok stats')) :
    Settling s s' ∧ ∀ g ∈ games, s'.db.Settled account g.id := by
  induction games generalizing s stats with
  | nil =>
      obtain ⟨rfl, -⟩ := Prod.mk.inj h
      exact ⟨Settling.refl keys, by simp⟩
  | cons g games ih =>
      cases hone : s.pruneGame account g.id (s.db.head account g.id)
          (s.db.configRetention account) stats with
      | mk s₁ outcome =>
          rw [pruneGames, hone] at h
          cases outcome with
          | error e => exact absurd (Prod.mk.inj h).2 (by simp)
          | ok stats₁ =>
              obtain ⟨hfirst, hg⟩ := settling_of_pruneGame keys hone
              rw [← hfirst.retention account] at h
              obtain ⟨hrest, hgames⟩ := ih hfirst.keys h
              exact ⟨hfirst.trans hrest,
                List.forall_mem_cons.mpr ⟨hrest.settled account g.id hg, hgames⟩⟩

/-- So are those of all accounts. -/
theorem settling_of_pruneAccounts {accounts : List AccountId} (keys : s.db.VersionKeys)
    (h : pruneAccounts accounts (s, stats) = (s', .ok stats')) :
    Settling s s' ∧ ∀ account ∈ accounts, ∀ g ∈ s.db.games, g.accountId = account →
      s'.db.Settled account g.id := by
  induction accounts generalizing s stats with
  | nil =>
      obtain ⟨rfl, -⟩ := Prod.mk.inj h
      exact ⟨Settling.refl keys, by simp⟩
  | cons account accounts ih =>
      cases hone : pruneGames account (s.db.configRetention account)
          (s.db.games.filter fun g => g.accountId = account) (s, stats) with
      | mk s₁ outcome =>
          rw [pruneAccounts, hone] at h
          cases outcome with
          | error e => exact absurd (Prod.mk.inj h).2 (by simp)
          | ok stats₁ =>
              obtain ⟨hfirst, hgames⟩ := settling_of_pruneGames keys hone
              obtain ⟨hrest, hothers⟩ := ih hfirst.keys h
              refine ⟨hfirst.trans hrest, List.forall_mem_cons.mpr ⟨fun g hg hacc => ?_, ?_⟩⟩
              · exact hrest.settled account g.id
                  (hgames g (List.mem_filter.mpr ⟨hg, by simpa using hacc⟩))
              · rw [hfirst.games] at hothers
                exact hothers

/-- A run over settled games does nothing. -/
theorem pruneGames_of_settled {games : List GameRow} (keys : s.db.VersionKeys)
    (settled : ∀ g ∈ games, s.db.Settled account g.id) (stats : GcStats) :
    pruneGames account (s.db.configRetention account) games (s, stats) = (s, .ok stats) := by
  induction games with
  | nil => rfl
  | cons g games ih =>
      rw [pruneGames, pruneGame_of_settled keys (settled g (by simp))]
      exact ih fun g' hg' => settled g' (by simp [hg'])

/-- A run over settled games deletes nothing. -/
theorem pruneAccounts_of_settled {accounts : List AccountId} (keys : s.db.VersionKeys)
    (settled : ∀ account ∈ accounts, ∀ g ∈ s.db.games, g.accountId = account →
      s.db.Settled account g.id) (stats : GcStats) :
    pruneAccounts accounts (s, stats) = (s, .ok stats) := by
  induction accounts with
  | nil => rfl
  | cons account accounts ih =>
      have hgames : ∀ g ∈ s.db.games.filter (fun g => g.accountId = account),
          s.db.Settled account g.id := by
        intro g hg
        obtain ⟨hg, hacc⟩ := List.mem_filter.mp hg
        exact settled account (by simp) g hg (by simpa using hacc)
      rw [pruneAccounts, pruneGames_of_settled keys hgames]
      exact ih fun account' hacc' => settled account' (by simp [hacc'])

/-- **Two runs in a row.**  For every content of the tables that respects the keys
of `versions`: after a run that succeeds, the next one prunes no version, deletes no
blob and changes nothing.  In a database that satisfies its invariant every run
succeeds. -/
theorem runGc_runGc (keys : s.db.VersionKeys) :
    (∀ stats, s.runGc.2 = .ok stats → s.runGc.1.runGc = (s.runGc.1, .ok default)) ∧
      (s.db.WF → ∃ stats, s.runGc.2 = .ok stats) := by
  constructor
  · intro stats hok
    have hrun : pruneAccounts s.db.accounts (s, default) = (s.runGc.1, .ok stats) :=
      Prod.ext rfl hok
    obtain ⟨hsettling, hgames⟩ := settling_of_pruneAccounts keys hrun
    rw [← hsettling.games, ← hsettling.accounts] at hgames
    exact pruneAccounts_of_settled hsettling.keys hgames default
  · intro wf
    obtain ⟨s', stats, dead, hrun, -⟩ := runGc_spec wf
    exact ⟨stats, by rw [hrun]⟩

/-- A full and two differentials under a retention of one each: the first run prunes
one version, the second none. -/
theorem runGc_runGc_afterBackups :
    (afterBackups 3).runGc.2 = .ok { versionsPruned := 1, blobsDeleted := 1 } ∧
      (afterBackups 3).runGc.1.runGc = ((afterBackups 3).runGc.1, .ok default) := by
  obtain ⟨trace, run⟩ := afterBackups_reachable
  have keys := (serverRun_wf run smallRetentionServer_fresh.wf).versionKeys
  exact ⟨by decide, (runGc_runGc keys).1 _ rfl⟩

end Server

end Savr
