import Savr.Server.ApiSpec
import Savr.Server.Retention

/-!
# Referential integrity through retention runs

The reference count of a blob is kept by increments in `create_version` and
decrements in `delete_version_and_deref`, and a deletion is legal only while the
heads, the parent pointers and the counts agree.  They do in every reachable state,
so a retention run never meets a foreign key it would violate.

The parent of an upload is a foreign key as well, and it comes from the memory of
a device.  Retention forgets versions that devices still remember:
`stale_parent_accepted_iff` says that this is the only way an otherwise sound
upload is turned down.
-/

namespace Savr

open LabelledRun

variable {s s₀ : Server} {trace : List ServerEvent}

/-- **Exact reference counts through retention runs.**  In every reachable state
the count of each blob is the number of versions that reference it, each head is a
version of its own game and account, and each parent is stored.  A retention run
from there succeeds, leaves every head in place, and removes the row of a blob
exactly when it prunes the last version that references it. -/
theorem exact_refcounts_through_gc (fresh : s₀.db.Fresh) (run : Run ServerStep s₀ trace s) :
    (∀ b ∈ s.db.blobs,
      b.refcount = (s.db.versions.countP fun v => v.blobHash = b.hash : ℕ)) ∧
    (∀ g ∈ s.db.games, ∀ h, g.head = some h →
      ∃ v ∈ s.db.versions, v.id = h ∧ v.gameId = g.id ∧ v.accountId = g.accountId) ∧
    (∀ v ∈ s.db.versions, ∀ p, v.parent = some p → ∃ u ∈ s.db.versions, u.id = p) ∧
    ∃ s' stats, s.runGc = (s', .ok stats) ∧
      s'.db.games = s.db.games ∧
      (∀ g ∈ s.db.games, ∀ h, g.head = some h → ∃ v ∈ s'.db.versions, v.id = h) ∧
      ∀ hash, s.db.Recorded hash →
        (¬ s'.db.Recorded hash ↔ s.db.References hash ∧ ¬ s'.db.References hash) := by
  have wf := serverRun_wf run fresh.wf
  obtain ⟨s', stats, dead, hrun, hpruned, -⟩ := Server.runGc_spec wf
  refine ⟨wf.refcounts, wf.headOwned, ?_, s', stats, hrun, hpruned.games, ?_, ?_⟩
  · intro v hv p hp
    obtain ⟨u, hu, hup, -⟩ := wf.parentOlder v hv p hp
    exact ⟨u, hu, hup⟩
  · intro g hg h hh
    obtain ⟨v, hv, hid, -⟩ := hpruned.wf.headOwned g (hpruned.games ▸ hg) h hh
    exact ⟨v, hv, hid⟩
  · intro hash hrecorded
    rw [hpruned.recorded, and_iff_right hrecorded, Classical.not_imp]

/-- Of three chained backups retention keeps the full and the newest differential:
the blob of the one between goes with it. -/
theorem exact_refcounts_after_three_backups :
    (∃ trace, Run ServerStep smallRetentionServer trace (afterBackups 3)) ∧
      (afterBackups 3).db.Recorded ⟨[2]⟩ ∧ ¬ (afterBackups 3).runGc.1.db.Recorded ⟨[2]⟩ := by
  obtain ⟨trace, run⟩ := afterBackups_reachable
  obtain ⟨-, -, -, s', stats, hrun, -, -, hblobs⟩ :=
    exact_refcounts_through_gc smallRetentionServer_fresh run
  have hrecorded : (afterBackups 3).db.Recorded ⟨[2]⟩ :=
    ⟨⟨⟨[2]⟩, 100, 1, 0⟩, by decide, rfl⟩
  have hafter : ∀ v ∈ (afterBackups 3).runGc.1.db.versions, v.blobHash ≠ ⟨[2]⟩ := by decide
  refine ⟨⟨trace, run⟩, hrecorded, ?_⟩
  rw [hrun] at hafter ⊢
  refine (hblobs _ hrecorded).mpr ⟨?_, ?_⟩
  · exact ⟨(afterBackups 3).db.versions.get ⟨1, by decide⟩, List.get_mem _ _, by decide⟩
  · rintro ⟨v, hv, hash⟩
    exact hafter v hv hash

/-! ### Stale parents -/

/-- **When a stale parent is accepted.**  In every reachable state, an upload for a
game of the account, by a known device, of an archive that is stored and recorded
gets an answer and is listed if and only if it declares no parent or one that
retention has left. -/
theorem stale_parent_accepted_iff (fresh : s₀.db.Fresh) (run : Run ServerStep s₀ trace s)
    (auth : Authed) (gameId : GameId) (req : CreateVersion) (id : VersionId) (now : Timestamp)
    (hid : req.parent ≠ some id) (hnew : ∀ v ∈ s.db.versions, v.id ≠ id)
    (game : ∃ game, s.db.findGame auth.accountId gameId = some game)
    (device : ∃ d ∈ s.db.devices, d.id = req.deviceId)
    (recorded : s.db.Recorded req.blobHash) (stored : s.blobExists req.blobHash = true) :
    (∃ advance, (s.createVersion auth gameId req id now).2.1 = .ok advance ∧
        advance.version ∈
          (s.createVersion auth gameId req id now).1.db.listVersions auth.accountId gameId ∧
        advance.version.id = id ∧ advance.version.request = req) ↔
      req.parent = none ∨ ∃ p, req.parent = some p ∧ ∃ v ∈ s.db.versions, v.id = p := by
  have wf := serverRun_wf run fresh.wf
  rw [Server.createVersion_stored_iff wf hid hnew fun _ => recorded, and_iff_right stored]
  constructor
  · intro accepts
    cases hp : req.parent with
    | none => exact Or.inl rfl
    | some p => exact Or.inr ⟨p, rfl, accepts.parent p hp⟩
  · rintro (hnone | ⟨p, hp, hstored⟩)
    · refine ⟨game, device, fun p hp => ?_⟩
      rw [hnone] at hp
      cases hp
    · refine ⟨game, device, fun q hq => ?_⟩
      obtain rfl := Option.some.inj (hp.symm.trans hq)
      exact hstored

/-- An archive that a device uploads after it was offline. -/
def staleArchive : Archive where
  metadata :=
    { gameId := 10, deviceId := 21, parent := some 102, kind := .full, files := [],
      deletions := [], createdAt := 9 }
  payload := []
  registry := none

/-- The server after three chained backups, a retention run and that upload. -/
def afterPrune : Server where
  db := (afterBackups 3).runGc.1.db.recordBlob ⟨[9]⟩ 100 9
  objects := Function.update (afterBackups 3).runGc.1.objects ⟨[9]⟩ (some staleArchive)

/-- The backup of a device that was last online after the second upload. -/
def staleBackup (parent : Option VersionId) : CreateVersion where
  parent := parent
  kind := .full
  files := []
  blobHash := ⟨[9]⟩
  bytes := 100
  deviceId := 21

/-- Three backups, a retention run, and the blob of a fourth. -/
theorem afterPrune_reachable : ∃ trace, Run ServerStep smallRetentionServer trace afterPrune ∧
    ∃ advance, ServerEvent.tx (.create (chainedBackup 2) (.ok advance)) ∈ trace := by
  have hgc : Run ServerStep (afterBackups 3) [.gc] (afterBackups 3).runGc.1 :=
    Run.single ServerStep.gc
  have hblob : Run ServerStep (afterBackups 3).runGc.1 [.tx (.recordBlob ⟨[9]⟩ 100)] afterPrune :=
    Run.single (ServerStep.tx _ (TxStep.recordBlob _ _ _))
  refine ⟨_, ((((afterBackups_step 0 ⟨by decide, by decide⟩).trans
    (afterBackups_step 1 ⟨by decide, by decide⟩)).trans
    (afterBackups_step 2 ⟨by decide, by decide⟩)).trans hgc).trans hblob, ?_⟩
  have hreply : ∃ advance, ((afterBackups 1).db.create (chainedBackup 2)).2 = .ok advance :=
    ⟨_, rfl⟩
  obtain ⟨advance, hok⟩ := hreply
  exact ⟨advance, by simp [hok]⟩

/-- The version the device remembers was accepted once and has been pruned since:
the upload fails on the foreign key, on this attempt and on every later one. -/
theorem pruned_parent_rejected :
    smallRetentionServer.db.Fresh ∧
      (∃ trace, Run ServerStep smallRetentionServer trace afterPrune ∧
        ∃ advance, ServerEvent.tx (.create (chainedBackup 2) (.ok advance)) ∈ trace) ∧
      (chainedBackup 2).id = 102 ∧
      (∀ v ∈ afterPrune.db.versions, v.id ≠ 104) ∧
      (∃ game, afterPrune.db.findGame 1 10 = some game) ∧
      (∃ d ∈ afterPrune.db.devices, d.id = 21) ∧
      afterPrune.db.Recorded ⟨[9]⟩ ∧ afterPrune.blobExists ⟨[9]⟩ = true ∧
      (afterPrune.createVersion ⟨1, 21⟩ 10 (staleBackup (some 102)) 104 10).2.1 =
        .error (.internal "FOREIGN KEY constraint failed") :=
  ⟨smallRetentionServer_fresh, afterPrune_reachable, rfl, by decide, ⟨_, rfl⟩, by decide,
    ⟨⟨⟨[9]⟩, 100, 0, 9⟩, by decide, rfl⟩, by decide, by decide⟩

/-- On the same server a parent that retention kept is accepted, although it is not
the head. -/
theorem kept_parent_accepted :
    ∃ advance, (afterPrune.createVersion ⟨1, 21⟩ 10 (staleBackup (some 101)) 104 10).2.1 =
      .ok advance := by
  obtain ⟨trace, run, -⟩ := afterPrune_reachable
  have accepted := stale_parent_accepted_iff smallRetentionServer_fresh run ⟨1, 21⟩ 10
    (staleBackup (some 101)) 104 10 (by decide) (by decide) ⟨_, rfl⟩ (by decide)
    ⟨⟨⟨[9]⟩, 100, 0, 9⟩, by decide, rfl⟩ (by decide)
  obtain ⟨advance, hok, -⟩ := accepted.mpr (Or.inr ⟨101, rfl, by decide⟩)
  exact ⟨advance, hok⟩

end Savr
