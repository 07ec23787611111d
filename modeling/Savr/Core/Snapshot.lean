import Savr.Core.Types
import Savr.Lib.Patch

/-!
# Snapshots and diffs

`savr-core/src/snapshot.rs`: a snapshot lists the files of a save set, and the
difference of two snapshots decides what a backup packs.

What the walk over the save patterns collects is a `SaveSet`.  The source keys
the collected files by `rel_path` in a `BTreeMap`, so a `SaveSet` carries the
proof that its paths increase strictly.

## Main results

* `patch_diff` — applying a diff to the old file map gives the new one.
* `diff_isEmpty_iff` — the diff is empty exactly when the file maps agree.
-/

namespace Savr

open KeyedMap

/-- A regular file the walk over the save patterns collected. -/
structure SaveFile where
  relPath : String
  mtime : ℤ
  content : Bytes
  deriving DecidableEq, Repr

/-- The collected files of one game, in the order of the `BTreeMap` that
collected them. -/
structure SaveSet where
  files : List SaveFile
  sorted : (files.map SaveFile.relPath).Pairwise (· < ·)

/-- The bytes found at a collected path. -/
def SaveSet.read (saves : SaveSet) (relPath : String) : Option Bytes :=
  (saves.files.find? fun f => f.relPath = relPath).map SaveFile.content

/-- The files of a game at one time. -/
structure Snapshot where
  gameId : GameId
  files : List FileEntry
  takenAt : Timestamp
  deriving DecidableEq, Repr

/-- The entry `collect` records for a file. -/
def SaveFile.entry [Blake3] (f : SaveFile) : FileEntry where
  relPath := f.relPath
  size := f.content.length
  mtime := f.mtime
  hash := Blake3.ofBytes f.content

/-- `Snapshot::build` over the collected files. -/
def Snapshot.build [Blake3] (gameId : GameId) (saves : SaveSet) (now : Timestamp) :
    Snapshot where
  gameId := gameId
  files := saves.files.map SaveFile.entry
  takenAt := now

/-- The `rel_path → hash` map of a file list. -/
def fileMap (files : List FileEntry) : String → Option Blake3Hash :=
  ofPairs (files.map fun f => (f.relPath, f.hash))

/-- No `rel_path` is listed twice. -/
def DistinctPaths (files : List FileEntry) : Prop :=
  (files.map FileEntry.relPath).Nodup

/-- The change between two snapshots. -/
structure Diff where
  /-- Files added or whose content hash changed. -/
  changed : List FileEntry
  /-- `rel_path`s present in the old snapshot but gone in the new one. -/
  deleted : List String
  deriving DecidableEq, Repr

/-- `Diff::is_empty`. -/
def Diff.isEmpty (d : Diff) : Bool :=
  d.changed.isEmpty && d.deleted.isEmpty

/-- The old files by path, as the source collects them into a `BTreeMap`. -/
def byPath (files : List FileEntry) : String → Option FileEntry :=
  ofPairs (files.map fun f => (f.relPath, f))

/-- `Snapshot::diff`: new and changed files, by hash, and the paths that are gone. -/
def diff (old new : Snapshot) : Diff where
  changed := new.files.filter fun f =>
    match byPath old.files f.relPath with
    | some o => o.hash ≠ f.hash
    | none => true
  deleted := (old.files.filter fun f =>
    f.relPath ∉ new.files.map FileEntry.relPath).map FileEntry.relPath

/-! ### File maps -/

theorem fileMap_eq_byPath (files : List FileEntry) (path : String) :
    fileMap files path = (byPath files path).map FileEntry.hash := by
  rw [byPath, ← ofPairs_map_snd, List.map_map]
  rfl

theorem fileMap_eq_none_iff {files : List FileEntry} {path : String} :
    fileMap files path = none ↔ path ∉ files.map FileEntry.relPath := by
  rw [fileMap, ofPairs_eq_none_iff, List.map_map]
  rfl

theorem pairs_keys (files : List FileEntry) :
    ((files.map fun f => (f.relPath, f.hash)).map Prod.fst) =
      files.map FileEntry.relPath := by
  rw [List.map_map]
  rfl

theorem fileMap_of_mem {files : List FileEntry} (hnd : DistinctPaths files)
    {f : FileEntry} (hf : f ∈ files) : fileMap files f.relPath = some f.hash := by
  refine insertAll_apply_of_mem _ ?_ (List.mem_map.mpr ⟨f, hf, rfl⟩)
  rw [pairs_keys]
  exact hnd

theorem SaveSet.paths_nodup (saves : SaveSet) : (saves.files.map SaveFile.relPath).Nodup := by
  refine saves.sorted.imp fun hlt heq => ?_
  subst heq
  exact String.lt_irrefl _ hlt

theorem SaveSet.read_eq_none_iff {saves : SaveSet} {path : String} :
    saves.read path = none ↔ path ∉ saves.files.map SaveFile.relPath := by
  rw [read, Option.map_eq_none_iff, List.find?_eq_none]
  simp

theorem SaveSet.distinctPaths [Blake3] (saves : SaveSet) :
    DistinctPaths (saves.files.map SaveFile.entry) := by
  rw [DistinctPaths, List.map_map]
  exact saves.paths_nodup

/-- `pack` reads at each collected path the bytes that were hashed. -/
theorem SaveSet.read_entry [Blake3] (saves : SaveSet) {f : FileEntry}
    (hf : f ∈ saves.files.map SaveFile.entry) :
    ∃ bytes, saves.read f.relPath = some bytes ∧ Blake3.ofBytes bytes = f.hash := by
  obtain ⟨file, hfile, rfl⟩ := List.mem_map.mp hf
  change ∃ bytes, saves.read file.relPath = some bytes ∧ _
  cases hfind : saves.files.find? fun g => g.relPath = file.relPath with
  | none =>
      rw [List.find?_eq_none] at hfind
      exact absurd (decide_eq_true rfl) (hfind file hfile)
  | some g =>
      have hpath : g.relPath = file.relPath := by simpa using List.find?_some hfind
      have hmem := List.mem_of_find?_eq_some hfind
      obtain rfl := List.inj_on_of_nodup_map saves.paths_nodup hmem hfile hpath
      exact ⟨g.content, by rw [SaveSet.read, hfind]; rfl, rfl⟩

/-! ### Diffs -/

theorem mem_changed {old new : Snapshot} {f : FileEntry} :
    f ∈ (diff old new).changed ↔
      f ∈ new.files ∧ fileMap old.files f.relPath ≠ some f.hash := by
  rw [diff, List.mem_filter, fileMap_eq_byPath]
  cases byPath old.files f.relPath with
  | none => simp
  | some o => simp

/-- The deletions of a diff are the names that were listed and are listed no more. -/
theorem mem_deleted {old new : Snapshot} {path : String} :
    path ∈ (diff old new).deleted ↔
      path ∈ old.files.map FileEntry.relPath ∧ path ∉ new.files.map FileEntry.relPath := by
  simp only [diff, List.mem_map, List.mem_filter, decide_eq_true_eq]
  constructor
  · rintro ⟨f, ⟨hf, hnew⟩, rfl⟩
    exact ⟨⟨f, hf, rfl⟩, hnew⟩
  · rintro ⟨⟨f, hf, rfl⟩, hnew⟩
    exact ⟨f, ⟨hf, hnew⟩, rfl⟩

/-- **A diff is a patch.**  Writing the changed files and dropping the deleted
ones takes the old file map to the new one. -/
theorem patch_diff (old : Snapshot) {new : Snapshot} (hnd : DistinctPaths new.files) :
    patch (fileMap old.files) ((diff old new).changed.map fun f => (f.relPath, f.hash))
      (diff old new).deleted = fileMap new.files := by
  refine patch_eq ?_ ?_ ?_ ?_
  · rw [pairs_keys]
    exact hnd.sublist (List.filter_sublist.map _)
  · intro path hash hmem
    obtain ⟨f, hf, heq⟩ := List.mem_map.mp hmem
    cases heq
    exact fileMap_of_mem hnd (mem_changed.mp hf).1
  · intro path hmem
    exact fileMap_eq_none_iff.mpr (mem_deleted.mp hmem).2
  · intro path hchanged hdeleted
    rw [pairs_keys] at hchanged
    by_cases hnew : path ∈ new.files.map FileEntry.relPath
    · obtain ⟨f, hf, rfl⟩ := List.mem_map.mp hnew
      rw [fileMap_of_mem hnd hf]
      by_contra hne
      exact hchanged (List.mem_map.mpr ⟨f, mem_changed.mpr ⟨hf, hne⟩, rfl⟩)
    · -- a path in neither list of the diff and not in the new snapshot is in
      -- neither snapshot
      have hold : path ∉ old.files.map FileEntry.relPath := fun hold =>
        hdeleted (mem_deleted.mpr ⟨hold, hnew⟩)
      rw [fileMap_eq_none_iff.mpr hold, fileMap_eq_none_iff.mpr hnew]

theorem Diff.isEmpty_iff {d : Diff} : d.isEmpty = true ↔ d.changed = [] ∧ d.deleted = [] := by
  simp [Diff.isEmpty]

/-- Nothing is left to back up exactly when the two snapshots hold the same
`rel_path → hash` map. -/
theorem diff_isEmpty_iff {old new : Snapshot} (hnd : DistinctPaths new.files) :
    (diff old new).isEmpty = true ↔ fileMap old.files = fileMap new.files := by
  rw [Diff.isEmpty_iff]
  constructor
  · rintro ⟨hchanged, hdeleted⟩
    have hpatch := patch_diff old hnd
    rwa [hchanged, hdeleted] at hpatch
  · intro hmap
    constructor
    · rw [List.eq_nil_iff_forall_not_mem]
      intro f hf
      obtain ⟨hmem, hne⟩ := mem_changed.mp hf
      exact hne (hmap ▸ fileMap_of_mem hnd hmem)
    · rw [List.eq_nil_iff_forall_not_mem]
      intro path hpath
      obtain ⟨hold, hnew⟩ := mem_deleted.mp hpath
      rw [← fileMap_eq_none_iff, ← hmap, fileMap_eq_none_iff] at hnew
      exact hnew hold

end Savr
