import Savr.Daemon.Backup
import Savr.Daemon.Chain

/-!
# The restore pipeline

`run_restore` of `savr-daemon/src/restore.rs`, after its pre-restore backup: build
the chain, fetch and merge its archives oldest first, put the result in place, and
record the restored version as the local base.

The pre-restore backup is an ordinary `run_backup` with `full_every = u32::MAX`; it
is a step of its own here, since other devices may write in between.
-/

namespace Savr

open KeyedMap

variable [Blake3]

/-- Why a restore ends without touching the saves. -/
inductive RestoreError
  | chain (e : ChainError)
  | blob (e : ApiError)
  /-- `archive integrity check failed`. -/
  | integrity (got expected : Blake3Hash)
  deriving DecidableEq, Repr

/-- One archive of the chain: its files override what was merged so far, its
deletions drop entries. -/
def mergeArchive (merged : String → Option Bytes) (a : Archive) : String → Option Bytes :=
  patch merged a.payload a.metadata.deletions

/-- Download and verify the archive of a version. -/
def fetchArchive (s : Server) (account : AccountId) (v : Version) : Except RestoreError Archive :=
  match s.blobGet account v.blobHash with
  | .error e => .error (.blob e)
  | .ok body =>
      if Blake3.ofArchive body = v.blobHash then .ok body
      else .error (.integrity (Blake3.ofArchive body) v.blobHash)

/-- Merge the archives of a chain, oldest first. -/
def mergeChain (s : Server) (account : AccountId) :
    (String → Option Bytes) → List Version → Except RestoreError (String → Option Bytes)
  | merged, [] => .ok merged
  | merged, v :: chain =>
      match fetchArchive s account v with
      | .error e => .error e
      | .ok body => mergeChain s account (mergeArchive merged body) chain

/-- The files a restore of `target` puts in place; `none` if the chain never ends. -/
def restoredFiles (s : Server) (account : AccountId) (gameId : GameId) (target : VersionId) :
    Option (Except RestoreError (String → Option Bytes)) :=
  (buildChain (s.db.listVersions account gameId) target).map fun
    | .error e => .error (.chain e)
    | .ok chain => mergeChain s account (fun _ => none) chain

/-- What a restore records: the target's files, under the target, as the new base. A restore
that fails before its end records nothing. -/
def runRestore (m : Machine) (gameId : GameId) (target : VersionId) : List Action :=
  match buildChain (m.server.db.listVersions m.device.accountId gameId) target with
  | some (.ok chain) =>
      match mergeChain m.server m.device.accountId (fun _ => none) chain, chain.getLast? with
      | .ok _, some v =>
          [.write (.putSnapshot gameId v.files v.createdAt (some v.id))]
      | _, _ => []
  | _ => []

/-- A restore records a version of the history, or nothing. -/
theorem runRestore_cases (m : Machine) (gameId : GameId) (target : VersionId)
    (distinct : DistinctIds (m.server.db.listVersions m.device.accountId gameId)) :
    runRestore m gameId target = [] ∨
      ∃ v ∈ m.server.db.listVersions m.device.accountId gameId,
        runRestore m gameId target =
          [.write (.putSnapshot gameId v.files v.createdAt (some v.id))] := by
  unfold runRestore
  split
  · rename_i chain hchain
    split
    · rename_i v _ hlast
      refine Or.inr ⟨v, ?_, rfl⟩
      have chainTo := (buildChain_eq_ok_iff distinct).mp hchain
      exact chainTo.mem distinct v (by simpa using List.mem_of_getLast? hlast)
    · exact Or.inl rfl
  · exact Or.inl rfl

/-- A restore that puts files in place records its target. -/
theorem runRestore_of_restored {m : Machine} {gameId : GameId} {v : Version}
    {merged : String → Option Bytes}
    (distinct : DistinctIds (m.server.db.listVersions m.device.accountId gameId))
    (hv : v ∈ m.server.db.listVersions m.device.accountId gameId)
    (h : restoredFiles m.server m.device.accountId gameId v.id = some (.ok merged)) :
    runRestore m gameId v.id = [.write (.putSnapshot gameId v.files v.createdAt (some v.id))] := by
  obtain ⟨r, hchain, hr⟩ := Option.map_eq_some_iff.mp h
  cases r with
  | error e => cases hr
  | ok chain =>
      obtain ⟨-, before, last, rfl, hid⟩ :=
        ((buildChain_eq_ok_iff distinct).mp hchain).shape distinct
      have hmem : last ∈ m.server.db.listVersions m.device.accountId gameId :=
        ((buildChain_eq_ok_iff distinct).mp hchain).mem distinct last (by simp)
      obtain rfl : last = v := List.inj_on_of_nodup_map distinct hmem hv hid
      have hmerge : mergeChain m.server m.device.accountId (fun _ => none) (before ++ [last]) =
          .ok merged := hr
      simp [runRestore, hchain, hmerge]

end Savr
