import Savr.System.Fidelity

/-!
# Chain replay

A sequence of snapshots packed the way `run_backup` packs them — the first in full, each
later one as its difference to the one before — is replayed by the merge loop of
`run_restore`: whatever was changed, deleted or added again along the way, the loop ends
with the files of the last snapshot.

## Main results

* `packBackup_holds` — what a backup packs holds its snapshot, in full or against the
  stored one.
* `mergeChain_replays` — the loop over the archives of a sequence of snapshots ends with
  the `rel_path → hash` map of the last one.
-/

namespace Savr

open KeyedMap

section General

variable [Blake3]

/-- The archive holds a snapshot in full. -/
structure Archive.HoldsFull (a : Archive) (snap : Snapshot) : Prop where
  files : a.hashed = snap.files.map fun f => (f.relPath, f.hash)
  deletions : a.metadata.deletions = []

/-- The archive holds the difference of two snapshots. -/
structure Archive.HoldsDiff (a : Archive) (old new : Snapshot) : Prop where
  files : a.hashed = (diff old new).changed.map fun f => (f.relPath, f.hash)
  deletions : a.metadata.deletions = (diff old new).deleted

/-- What `run_backup` packs: the snapshot in full, or its difference to the stored one. -/
theorem packBackup_holds {m : Machine} {job : BackupJob} {env : BackupEnv} {p : Packed}
    (hp : packBackup m.device job env = some p) :
    (p.create.kind = .full →
      p.archive.HoldsFull (Snapshot.build job.gameId env.saves env.takenAt)) ∧
    (p.create.kind = .differential → ∀ snap,
      m.device.state.snapshots job.gameId = some snap →
        p.archive.HoldsDiff ⟨job.gameId, snap.files, snap.takenAt⟩
          (Snapshot.build job.gameId env.saves env.takenAt)) := by
  constructor
  · intro hkind
    obtain ⟨hpayload, hdeletions⟩ := packBackup_full hp hkind
    refine ⟨?_, hdeletions⟩
    rw [Archive.hashed, hpayload, (packBackup_eq_some hp).1]
    exact hashed_buildPayload env.saves fun _ hf => hf
  · intro hkind snap hsnap
    obtain ⟨old, hold, hpayload, hdeletions⟩ := packBackup_differential hp hkind hsnap
    have hdiff : diff old (Snapshot.build job.gameId env.saves env.takenAt)
        = diff ⟨job.gameId, snap.files, snap.takenAt⟩
            (Snapshot.build job.gameId env.saves env.takenAt) := by
      rw [diff, diff, hold]
    rw [hdiff] at hpayload hdeletions
    refine ⟨?_, hdeletions⟩
    rw [Archive.hashed, hpayload]
    exact hashed_buildPayload env.saves fun f hf => (mem_changed.mp hf).1

theorem hashes_mergeArchive_full {a : Archive} {snap : Snapshot} (h : a.HoldsFull snap) :
    hashes (mergeArchive (fun _ => none) a) = fileMap snap.files := by
  rw [hashes_mergeArchive, h.files, h.deletions]
  rfl

theorem hashes_mergeArchive_diff {a : Archive} {old new : Snapshot} (h : a.HoldsDiff old new)
    (distinct : DistinctPaths new.files) {merged : String → Option Bytes}
    (hmerged : hashes merged = fileMap old.files) :
    hashes (mergeArchive merged a) = fileMap new.files := by
  rw [hashes_mergeArchive, hmerged, h.files, h.deletions]
  exact patch_diff old distinct

/-- The merge loop reads the archives one after the other. -/
theorem mergeChain_replays_upTo {s : Server} {account : AccountId} {chain : ℕ → Version}
    {archives : ℕ → Archive} {snaps : ℕ → Snapshot} {n : ℕ}
    (hfetch : ∀ i ≤ n, fetchArchive s account (chain i) = .ok (archives i))
    (distinct : ∀ i ≤ n, DistinctPaths (snaps i).files)
    (hfull : (archives 0).HoldsFull (snaps 0))
    (hdiff : ∀ i < n, (archives (i + 1)).HoldsDiff (snaps i) (snaps (i + 1))) :
    ∃ merged, mergeChain s account (fun _ => none) ((List.range (n + 1)).map chain) = .ok merged ∧
      hashes merged = fileMap (snaps n).files := by
  induction n with
  | zero =>
      refine ⟨mergeArchive (fun _ => none) (archives 0), ?_, hashes_mergeArchive_full hfull⟩
      change mergeChain s account _ [chain 0] = _
      rw [mergeChain, hfetch 0 le_rfl]
      rfl
  | succ n ih =>
      obtain ⟨merged, hmerge, hmerged⟩ := ih (fun i hi => hfetch i (hi.trans n.le_succ))
        (fun i hi => distinct i (hi.trans n.le_succ)) fun i hi => hdiff i (hi.trans n.lt_succ_self)
      refine ⟨mergeArchive merged (archives (n + 1)), ?_,
        hashes_mergeArchive_diff (hdiff n n.lt_succ_self) (distinct (n + 1) le_rfl) hmerged⟩
      rw [List.range_succ, List.map_append, List.map_cons, List.map_nil, mergeChain_append,
        hmerge]
      change mergeChain s account merged [chain (n + 1)] = _
      rw [mergeChain, hfetch (n + 1) le_rfl]
      rfl

/-- **Chain replay inverts differential packing.**  However long the sequence of snapshots
is, the merge loop over their archives ends with the files of the last one; and a diff is
empty exactly when the two snapshots hold the same files. -/
theorem mergeChain_replays {s : Server} {account : AccountId} {chain : ℕ → Version}
    {archives : ℕ → Archive} (snaps : ℕ → Snapshot) {n : ℕ}
    (hfetch : ∀ i ≤ n, fetchArchive s account (chain i) = .ok (archives i))
    (distinct : ∀ i ≤ n, DistinctPaths (snaps i).files)
    (hfull : (archives 0).HoldsFull (snaps 0))
    (hdiff : ∀ i < n, (archives (i + 1)).HoldsDiff (snaps i) (snaps (i + 1))) :
    (∃ merged,
      mergeChain s account (fun _ => none) ((List.range (n + 1)).map chain) = .ok merged ∧
        hashes merged = fileMap (snaps n).files) ∧
    ∀ old new : Snapshot, DistinctPaths old.files → DistinctPaths new.files →
      ((diff old new).isEmpty = true ↔ fileMap old.files = fileMap new.files) :=
  ⟨mergeChain_replays_upTo hfetch distinct hfull hdiff,
    fun _ _ _ hnew => diff_isEmpty_iff hnew⟩

end General

section Example

local instance replayDigest : Blake3 := plainDigest

/-- The save of the example machine, with a second file that is deleted and added again. -/
def replayedSave (i : ℕ) : SaveSet :=
  if i % 2 = 0 then twoByteSave 1 (UInt8.ofNat i) else oneByteSave 1

/-- The `i`-th backup, on the machine the ones before it left. -/
def replayedBackup (i : ℕ) : BackupEnv := exampleBackup (replayedSave i) true .none (i + 1)

/-- The device after so many backups. -/
def replayedMachine : ℕ → Machine
  | 0 => newMachine
  | i + 1 => (replayedMachine i).run
      (runBackup (replayedMachine i) exampleJob (replayedBackup i)).2

/-- The `i`-th archive. -/
def replayedArchive (i : ℕ) : Archive :=
  ((packBackup (replayedMachine i).device exampleJob (replayedBackup i)).map Packed.archive).getD
    { metadata := ⟨0, 0, none, .full, [], [], 0⟩, payload := [], registry := none }

/-- The `i`-th version on the server after three backups. -/
def replayedVersion (i : ℕ) : Version :=
  (((replayedMachine 3).server.db.listVersions 1 10).find? (·.id = 101 + i)).getD
    ⟨0, 0, 0, none, .full, [], ⟨[]⟩, 0, 0, 0⟩

/-- The theorem above at a full version and two diffs. -/
theorem mergeChain_replays_three :
    ∃ merged, mergeChain (replayedMachine 3).server 1 (fun _ => none)
        ((List.range 3).map replayedVersion) = .ok merged ∧
      hashes merged = fileMap (Snapshot.build 10 (replayedSave 2) 3).files := by
  have hfetch : ∀ i ≤ 2, fetchArchive (replayedMachine 3).server 1 (replayedVersion i)
      = .ok (replayedArchive i) := by
    intro i hi
    interval_cases i <;> rfl
  have hfull : (replayedArchive 0).HoldsFull (Snapshot.build 10 (replayedSave 0) 1) :=
    ⟨by decide +kernel, by decide +kernel⟩
  have hdiff : ∀ i < 2, (replayedArchive (i + 1)).HoldsDiff
      (Snapshot.build 10 (replayedSave i) (i + 1))
      (Snapshot.build 10 (replayedSave (i + 1)) (i + 2)) := by
    intro i hi
    interval_cases i
    · exact ⟨by decide +kernel, by decide +kernel⟩
    · exact ⟨by decide +kernel, by decide +kernel⟩
  exact (mergeChain_replays (fun i => Snapshot.build 10 (replayedSave i) (i + 1)) hfetch
    (fun i _ => (replayedSave i).distinctPaths) hfull hdiff).1

end Example

end Savr
