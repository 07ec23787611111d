import Savr.Core.Types
import Savr.Lib.Patch
import Savr.Lib.PointerWalk

/-!
# Restore chains

`build_chain` of `savr-daemon/src/restore.rs`: a version is rebuilt from the
archives met on the way along the parent pointers back to a full backup.

The loop of the source has no bound of its own.  On a history whose pointers run
in a circle it would not end; the fuel of `buildChain` allows one step along a
parent pointer for each version, after which a walk that has not ended has
repeated itself, and `none` stands for that.

## Main results

* `buildChain_eq_ok_iff` — `build_chain` succeeds with the chain `c` exactly when
  the parent pointers lead from the target through `c` to a full.
* `ChainTo.mem_of_parent` — a differential of a chain has its parent in it.
* `buildChain_ends` — on a history whose parents are older than their children,
  `build_chain` ends.
-/

namespace Savr

open KeyedMap PointerWalk

/-- Why a chain could not be built. -/
inductive ChainError
  /-- `version {id} missing from history`. -/
  | missing (id : VersionId)
  /-- `differential chain for {target} never reaches a full backup`. -/
  | neverFull (target : VersionId)
  deriving DecidableEq, Repr

/-- The versions by id, as collected into a `HashMap`. -/
def byId (versions : List Version) : VersionId → Option Version :=
  ofPairs (versions.map fun v => (v.id, v))

/-- The version stands on its own. -/
def Version.isFull (v : Version) : Bool :=
  v.kind = .full

/-- Build the apply-order chain, full first and target last. -/
def buildChain (versions : List Version) (target : VersionId) :
    Option (Except ChainError (List Version)) :=
  -- one look-up for the target and one for each step
  (walk (byId versions) Version.isFull Version.parent (versions.length + 1) (some target)).map fun
    | .ok chain => .ok chain.reverse
    | .error (.missing id) => .error (.missing id)
    | .error .deadEnd => .error (.neverFull target)

/-- The parent pointers lead from `target` through `chain` to a full, target
first. -/
def ChainTo (versions : List Version) (target : VersionId) (chain : List Version) : Prop :=
  WalkTo (byId versions) Version.isFull Version.parent target chain

section

variable {versions : List Version} {target : VersionId} {chain : List Version}

/-- With distinct ids, a look-up finds the version of the id. -/
theorem byId_eq_some_iff (distinct : DistinctIds versions) {id : VersionId} {v : Version} :
    byId versions id = some v ↔ v ∈ versions ∧ v.id = id := by
  have hkeys : ((versions.map fun v => (v.id, v)).map Prod.fst).Nodup := by
    rw [List.map_map]
    exact distinct
  rw [byId, ofPairs_eq_some_iff hkeys]
  constructor
  · intro hmem
    obtain ⟨w, hw, heq⟩ := List.mem_map.mp hmem
    obtain ⟨rfl, rfl⟩ := Prod.mk.inj heq
    exact ⟨hw, rfl⟩
  · rintro ⟨hv, rfl⟩
    exact List.mem_map.mpr ⟨v, hv, rfl⟩

/-- **`build_chain` is its specification.** -/
theorem buildChain_eq_ok_iff (distinct : DistinctIds versions) :
    buildChain versions target = some (.ok chain) ↔ ChainTo versions target chain.reverse := by
  have hwalk : walk (byId versions) Version.isFull Version.parent (versions.length + 1)
        (some target) = some (.ok chain.reverse) ↔
      WalkTo (byId versions) Version.isFull Version.parent target chain.reverse :=
    walk_eq_some_ok_iff (fun k v hv => ((byId_eq_some_iff distinct).mp hv).2)
      (fun k v hv => ((byId_eq_some_iff distinct).mp hv).1) (Nat.le_succ _)
  rw [ChainTo, ← hwalk, buildChain, Option.map_eq_some_iff]
  constructor
  · rintro ⟨r, hr, hmap⟩
    match r, hmap with
    | .ok c, hmap =>
        obtain rfl := Except.ok.inj hmap
        rw [hr, List.reverse_reverse]
  · intro hr
    exact ⟨_, hr, by simp⟩

/-- Every version of a chain is listed. -/
theorem ChainTo.mem (chainTo : ChainTo versions target chain) (distinct : DistinctIds versions) :
    ∀ v ∈ chain, v ∈ versions := by
  intro v hv
  obtain ⟨k, hk⟩ := WalkTo.exists_lookup chainTo v hv
  exact ((byId_eq_some_iff distinct).mp hk).1

/-- A differential of a chain has its parent in the chain. -/
theorem ChainTo.mem_of_parent (chainTo : ChainTo versions target chain)
    (distinct : DistinctIds versions) :
    ∀ v ∈ chain, v.isFull = false → ∃ p, v.parent = some p ∧ ∃ u ∈ chain, u.id = p := by
  induction chainTo with
  | last hv hs =>
      intro w hmem hdiff
      obtain rfl := List.mem_singleton.mp hmem
      rw [hs] at hdiff
      cases hdiff
  | step hv hs hp hrest ih =>
      intro w hmem hdiff
      rcases List.mem_cons.mp hmem with rfl | hmem
      · obtain ⟨u, rest, hu, rfl⟩ := hrest.head_eq
        exact ⟨_, hp, u, by simp, ((byId_eq_some_iff distinct).mp hu).2⟩
      · obtain ⟨p, hpar, u, hu, hid⟩ := ih w hmem hdiff
        exact ⟨p, hpar, u, List.mem_cons_of_mem _ hu, hid⟩

/-- Within the history, a parent has a smaller `seq` than its child. -/
def ParentsOlder (versions : List Version) : Prop :=
  ∀ v ∈ versions, ∀ u ∈ versions, v.parent = some u.id → u.seq < v.seq

theorem ParentsOlder.down (older : ParentsOlder versions) (distinct : DistinctIds versions) :
    ∀ k v p w, byId versions k = some v → v.parent = some p → byId versions p = some w →
      w.seq < v.seq := by
  intro k v p w hv hp hw
  obtain ⟨hvmem, -⟩ := (byId_eq_some_iff distinct).mp hv
  obtain ⟨hwmem, rfl⟩ := (byId_eq_some_iff distinct).mp hw
  exact older v hvmem w hwmem hp

/-- **`build_chain` ends**, with a chain or with an error. -/
theorem buildChain_ends (older : ParentsOlder versions) (distinct : DistinctIds versions)
    (target : VersionId) : ∃ r, buildChain versions target = some r := by
  have hends : ∃ r, walk (byId versions) Version.isFull Version.parent (versions.length + 1)
      (some target) = some r :=
    exists_walk (older.down distinct) (fun k v hv => ((byId_eq_some_iff distinct).mp hv).1)
      (Nat.lt_succ_self versions.length) target
  obtain ⟨r, hr⟩ := hends
  exact ⟨_, by rw [buildChain, hr, Option.map_some]⟩

/-- A full first, then differentials, the target last. -/
theorem ChainTo.shape (chainTo : ChainTo versions target chain.reverse)
    (distinct : DistinctIds versions) :
    (∃ full diffs, chain = full :: diffs ∧ full.kind = .full ∧
      ∀ d ∈ diffs, d.kind = .differential) ∧
    ∃ before last, chain = before ++ [last] ∧ last.id = target := by
  constructor
  · obtain ⟨pre, full, heq, hfull, hdiffs⟩ := WalkTo.stops_getLast chainTo
    refine ⟨full, pre.reverse, ?_, by simpa [Version.isFull] using hfull, fun d hd => ?_⟩
    · rw [← List.reverse_reverse chain, heq, List.reverse_append]
      rfl
    · have hnot := hdiffs d (by simpa using hd)
      cases hkind : d.kind with
      | full => simp [Version.isFull, hkind] at hnot
      | differential => rfl
  · obtain ⟨last, rest, hlast, heq⟩ := WalkTo.head_eq chainTo
    refine ⟨rest.reverse, last, ?_, ((byId_eq_some_iff distinct).mp hlast).2⟩
    rw [← List.reverse_reverse chain, heq, List.reverse_cons]

/-- Along a chain `seq` increases. -/
theorem ChainTo.increasing (chainTo : ChainTo versions target chain.reverse)
    (older : ParentsOlder versions) (distinct : DistinctIds versions) :
    chain.Pairwise fun u v => u.seq < v.seq := by
  rw [← List.reverse_reverse chain, List.pairwise_reverse]
  exact WalkTo.pairwise_rank chainTo (older.down distinct)

end

end Savr
