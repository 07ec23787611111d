import Mathlib.Data.List.AList
import Savr.Core.FileSystem
import Savr.Lib.Patch

/-!
# The executable index

`ExeIndex` of `savr-daemon/src/detection/exe_index.rs`: which game a running executable belongs
to, by its path or else by a basename that no other game has.

## Main results

* `ExeIndex.matchExe_eq` — an answer depends on two views of the index only.
* `paths_ofClaims`, `mem_claimants_ofClaims` — these views, in terms of the insertions.
* `paths_fromRows`, `mem_claimants_fromRows` — and in terms of the rows it is rebuilt from.

## Design notes

A path is the text that `to_string_lossy` makes of it.  How names are folded is part of the
platform; on Linux it is the identity.
-/

namespace Savr

open KeyedMap

/-- How sure a match of an executable is. -/
inductive Confidence
  | basename
  | path
  deriving DecidableEq, Repr

namespace Confidence

/-- `Confidence::as_i64`: how it is stored. -/
def asI64 : Confidence → ℤ
  | .basename => 1
  | .path => 2

/-- `Confidence::from_i64`: larger numbers count as a match of the path. -/
def fromI64 (v : ℤ) : Confidence := if 2 ≤ v then .path else .basename

end Confidence

/-- A `HashMap` keyed by text. -/
abbrev TextMap (β : Type) := AList fun _ : String => β

/-- Which games the executables belong to. -/
structure ExeIndex where
  /-- Canonical full path to game. -/
  byPath : TextMap GameId
  /-- Basename to the distinct games claiming it. -/
  byBasename : TextMap (List GameId)

/-- A persisted row of the index. -/
abbrev ExeRow := String × GameId × ℤ

/-- The spelling under which a full path is indexed. -/
def exeKey (pf : Platform) (path : String) : String := pf.fold path

/-- `Path::file_name`. -/
def fileName (style : PathStyle) (path : String) : Option String :=
  match (components style path).getLast? with
  | some (.normal name) => some name
  | _ => none

/-- The spelling under which the last name of a path is indexed. -/
def basenameKey (pf : Platform) (path : String) : Option String :=
  (fileName pf.style path).map pf.fold

namespace ExeIndex

/-- `ExeIndex::new`. -/
def new : ExeIndex := { byPath := ∅, byBasename := ∅ }

/-- The games that claim a basename. -/
def claimants (idx : ExeIndex) (key : String) : List GameId := (idx.byBasename.lookup key).getD []

/-- One more claimant of a basename, if it is not one already. -/
def pushBasename (idx : ExeIndex) (key : String) (g : GameId) : ExeIndex :=
  let games := idx.claimants key
  { idx with byBasename := idx.byBasename.insert key (if g ∈ games then games else games ++ [g]) }

/-- A full path belongs to one game; the last one wins. -/
def insertPath (idx : ExeIndex) (key : String) (g : GameId) : ExeIndex :=
  { idx with byPath := idx.byPath.insert key g }

/-- One persisted row. -/
def insertRow (idx : ExeIndex) (row : ExeRow) : ExeIndex :=
  match Confidence.fromI64 row.2.2 with
  | .path => idx.insertPath row.1 row.2.1
  | .basename => idx.pushBasename row.1 row.2.1

/-- `ExeIndex::from_rows`: the index as it was stored. -/
def fromRows (rows : List ExeRow) : ExeIndex := rows.foldl insertRow new

/-- `ExeIndex::insert`: an executable under both of its keys. -/
def insertExe (pf : Platform) (idx : ExeIndex) (exe : String) (g : GameId) : ExeIndex :=
  let idx := idx.insertPath (exeKey pf exe) g
  match basenameKey pf exe with
  | none => idx
  | some key => idx.pushBasename key g

/-- `ExeIndex::match_exe`: the full path decides, then a basename that one game alone claims.
A basename of two games matches neither. -/
def matchExe (pf : Platform) (idx : ExeIndex) (path : String) : Option (GameId × Confidence) :=
  match idx.byPath.lookup (exeKey pf path) with
  | some g => some (g, .path)
  | none =>
      (basenameKey pf path).bind fun key =>
        match idx.byBasename.lookup key with
        | some [g] => some (g, .basename)
        | _ => none

/-- Only unambiguous basenames are persisted. -/
def toRows (idx : ExeIndex) : List ExeRow :=
  (idx.byPath.entries.map fun e => (e.1, e.2, Confidence.path.asI64)) ++
    idx.byBasename.entries.filterMap fun e =>
      match e.2 with
      | [only] => some (e.1, only, Confidence.basename.asI64)
      | _ => none

/-- The index after these insertions. -/
def ofClaims (pf : Platform) (claims : List (String × GameId)) : ExeIndex :=
  claims.foldl (fun idx c => idx.insertExe pf c.1 c.2) new

/-! ## The two views of an index -/

section Views

variable {idx : ExeIndex} {key key' path : String} {g g' : GameId} {pf : Platform}

/-- The game of a path. -/
def paths (idx : ExeIndex) (key : String) : Option GameId := idx.byPath.lookup key

/-- The answer, from the views of an index: which game owns a path, and which games claim a
basename. Two indexes with the same views answer alike. -/
def answer (pf : Platform) (paths : String → Option GameId) (claimants : String → List GameId)
    (path : String) : Option (GameId × Confidence) :=
  match paths (exeKey pf path) with
  | some g => some (g, .path)
  | none =>
      (basenameKey pf path).bind fun key =>
        match claimants key with
        | [g] => some (g, .basename)
        | _ => none

/-- A match depends on the paths and the claimants alone. -/
theorem matchExe_eq (pf : Platform) (idx : ExeIndex) (path : String) :
    idx.matchExe pf path = answer pf idx.paths idx.claimants path := by
  rw [matchExe, answer, paths]
  cases idx.byPath.lookup (exeKey pf path) with
  | some g => rfl
  | none =>
      refine congrArg (Option.bind _) (funext fun key => ?_)
      rw [claimants]
      cases idx.byBasename.lookup key with
      | none => rfl
      | some games =>
          cases games with
          | nil => rfl
          | cons g more => cases more <;> rfl

/-- Of the claimants of a basename, only a single one counts. -/
theorem answer_congr {paths : String → Option GameId} {c c' : String → List GameId}
    (h : ∀ key g, c key = [g] ↔ c' key = [g]) (path : String) :
    answer pf paths c path = answer pf paths c' path := by
  rw [answer, answer]
  cases paths (exeKey pf path) with
  | some g => rfl
  | none =>
      refine congrArg (Option.bind _) (funext fun key => ?_)
      by_cases hsingle : ∃ g, c key = [g]
      · obtain ⟨g, hg⟩ := hsingle
        rw [hg, (h key g).mp hg]
      · have hnone : ∀ {games : List GameId}, (∀ g, games ≠ [g]) → (match games with
            | [g] => some (g, Confidence.basename)
            | _ => none) = none := by
          intro games hgames
          split
          · rename_i g
            exact absurd rfl (hgames g)
          · rfl
        rw [hnone fun g hg => hsingle ⟨g, hg⟩,
          hnone fun g hg => hsingle ⟨g, (h key g).mpr hg⟩]

/-- A match of the path is decided by the paths. -/
theorem answer_eq_path_iff {paths : String → Option GameId} {c : String → List GameId} :
    answer pf paths c path = some (g, .path) ↔ paths (exeKey pf path) = some g := by
  rw [answer]
  cases paths (exeKey pf path) with
  | some g' => simp
  | none =>
      refine iff_of_false ?_ (by simp)
      intro h
      obtain ⟨key, -, h⟩ := Option.bind_eq_some_iff.mp h
      split at h
      · cases h
      · cases h

/-- A match of the basename needs one claimant, and no match of the path. -/
theorem answer_eq_basename_iff {paths : String → Option GameId} {c : String → List GameId} :
    answer pf paths c path = some (g, .basename) ↔ paths (exeKey pf path) = none ∧
      ∃ key, basenameKey pf path = some key ∧ c key = [g] := by
  rw [answer]
  cases paths (exeKey pf path) with
  | some g' => simp
  | none =>
      rw [and_iff_right rfl, Option.bind_eq_some_iff]
      refine exists_congr fun key => and_congr_right fun _ => ?_
      split
      · rename_i g' hc
        simp [hc]
      · rename_i hc
        exact iff_of_false (by simp) (hc g)

/-- An inserted path is owned by the last game inserted for it. -/
theorem paths_insertPath :
    (idx.insertPath key g).paths = Function.update idx.paths key (some g) := by
  funext k
  by_cases hk : k = key
  · subst hk
    rw [paths, insertPath, AList.lookup_insert, Function.update_self]
  · rw [paths, insertPath, AList.lookup_insert_ne hk, Function.update_of_ne hk]
    rfl

/-- One more claimant, and no other. -/
theorem mem_claimants_pushBasename : g' ∈ (idx.pushBasename key g).claimants key' ↔
    (key' = key ∧ g' = g) ∨ g' ∈ idx.claimants key' := by
  by_cases hk : key' = key
  · subst hk
    rw [claimants, pushBasename, AList.lookup_insert, Option.getD_some]
    by_cases hg : g ∈ idx.claimants key'
    · rw [if_pos hg]
      refine ⟨.inr, ?_⟩
      rintro (⟨-, rfl⟩ | h)
      · exact hg
      · exact h
    · rw [if_neg hg, List.mem_append, List.mem_singleton, or_comm]
      simp
  · rw [claimants, pushBasename, AList.lookup_insert_ne hk]
    simp [hk, claimants]

/-- No game is listed twice for a basename. -/
def Distinct (idx : ExeIndex) : Prop := ∀ key, (idx.claimants key).Nodup

theorem distinct_new : new.Distinct := fun _ => List.nodup_nil

/-- No claimant is listed twice. -/
theorem Distinct.pushBasename (h : idx.Distinct) (key : String) (g : GameId) :
    (idx.pushBasename key g).Distinct := by
  intro key'
  by_cases hk : key' = key
  · subst hk
    rw [claimants, ExeIndex.pushBasename, AList.lookup_insert, Option.getD_some]
    split_ifs with hg
    · exact h key'
    · refine List.nodup_append.mpr ⟨h key', List.nodup_singleton g, ?_⟩
      rintro a ha b hb rfl
      rw [List.mem_singleton.mp hb] at ha
      exact hg ha
  · rw [claimants, ExeIndex.pushBasename, AList.lookup_insert_ne hk]
    exact h key'

/-- A game is the only claimant exactly when it claims and no other does. -/
theorem Distinct.claimants_eq_singleton (h : idx.Distinct) :
    idx.claimants key = [g] ↔ ∀ g', g' ∈ idx.claimants key ↔ g' = g := by
  constructor
  · intro heq g'
    rw [heq, List.mem_singleton]
  · intro hmem
    have hperm : (idx.claimants key).Perm [g] :=
      (List.perm_ext_iff_of_nodup (h key) (List.nodup_singleton g)).mpr fun g' => by
        rw [hmem, List.mem_singleton]
    exact List.perm_singleton.mp hperm

end Views

/-! ## After insertions -/

section Claims

variable {pf : Platform} {claims : List (String × GameId)} {g : GameId} {key path : String}

/-- The game has inserted an executable of this basename. -/
def Claims (pf : Platform) (claims : List (String × GameId)) (key : String) (g : GameId) : Prop :=
  ∃ exe, (exe, g) ∈ claims ∧ basenameKey pf exe = some key

theorem ofClaims_concat (pf : Platform) (claims : List (String × GameId)) (c : String × GameId) :
    ofClaims pf (claims ++ [c]) = (ofClaims pf claims).insertExe pf c.1 c.2 := by
  rw [ofClaims, List.foldl_append]
  rfl

theorem paths_insertExe (idx : ExeIndex) (exe : String) :
    (idx.insertExe pf exe g).paths = Function.update idx.paths (exeKey pf exe) (some g) := by
  rw [← paths_insertPath, insertExe]
  cases basenameKey pf exe <;> rfl

/-- An inserted executable adds one claim, under its own basename. -/
theorem mem_claimants_insertExe {idx : ExeIndex} {exe : String} {g' : GameId} :
    g' ∈ (idx.insertExe pf exe g).claimants key ↔
      (basenameKey pf exe = some key ∧ g' = g) ∨ g' ∈ idx.claimants key := by
  rw [insertExe]
  cases basenameKey pf exe with
  | none => simp [insertPath, claimants]
  | some key' =>
      refine mem_claimants_pushBasename.trans ?_
      rw [Option.some_inj, eq_comm]
      rfl

theorem Distinct.insertExe {idx : ExeIndex} (h : idx.Distinct) (exe : String) (g : GameId) :
    (idx.insertExe pf exe g).Distinct := by
  have hpath : (idx.insertPath (exeKey pf exe) g).Distinct := h
  rw [ExeIndex.insertExe]
  cases basenameKey pf exe with
  | none => exact hpath
  | some key => exact hpath.pushBasename key g

theorem distinct_ofClaims : (ofClaims pf claims).Distinct := by
  induction claims using List.reverseRecOn with
  | nil => exact distinct_new
  | append_singleton claims c ih =>
      rw [ofClaims_concat]
      exact ih.insertExe c.1 c.2

/-- By path, the last insertion counts. -/
theorem paths_ofClaims :
    (ofClaims pf claims).paths = ofPairs (claims.map fun c => (exeKey pf c.1, c.2)) := by
  induction claims using List.reverseRecOn with
  | nil => rfl
  | append_singleton claims c ih =>
      rw [ofClaims_concat, paths_insertExe, ih, List.map_append, ofPairs, ofPairs, insertAll,
        insertAll, List.foldl_append]
      rfl

/-- The claimants of a basename are the games that claim it. -/
theorem mem_claimants_ofClaims :
    g ∈ (ofClaims pf claims).claimants key ↔ Claims pf claims key g := by
  induction claims using List.reverseRecOn with
  | nil => simp [ofClaims, new, claimants, Claims]
  | append_singleton claims c ih =>
      rw [ofClaims_concat, mem_claimants_insertExe, ih]
      constructor
      · rintro (⟨hkey, rfl⟩ | ⟨exe, hexe, hkey⟩)
        · exact ⟨c.1, by simp, hkey⟩
        · exact ⟨exe, List.mem_append_left _ hexe, hkey⟩
      · rintro ⟨exe, hexe, hkey⟩
        rcases List.mem_append.mp hexe with hexe | hexe
        · exact .inr ⟨exe, hexe, hkey⟩
        · obtain rfl := List.mem_singleton.mp hexe
          exact .inl ⟨hkey, rfl⟩

end Claims

/-! ## From rows -/

section Rows

variable {idx : ExeIndex} {rows : List ExeRow} {key : String} {g : GameId}

/-- The path entries among the rows. -/
def pathRows (rows : List ExeRow) : List (String × GameId) :=
  (rows.filter fun r => Confidence.fromI64 r.2.2 = .path).map fun r => (r.1, r.2.1)

/-- A row lists the game for the basename. -/
def ListsBasename (rows : List ExeRow) (key : String) (g : GameId) : Prop :=
  ∃ v, (key, g, v) ∈ rows ∧ Confidence.fromI64 v = .basename

theorem fromRows_concat (rows : List ExeRow) (row : ExeRow) :
    fromRows (rows ++ [row]) = (fromRows rows).insertRow row := by
  rw [fromRows, List.foldl_append]
  rfl

/-- An index from stored rows lists no claimant twice. -/
theorem distinct_fromRows : (fromRows rows).Distinct := by
  induction rows using List.reverseRecOn with
  | nil => exact distinct_new
  | append_singleton rows row ih =>
      rw [fromRows_concat, insertRow]
      cases Confidence.fromI64 row.2.2 with
      | path => exact ih
      | basename => exact ih.pushBasename row.1 row.2.1

/-- The paths that are read back, the last row first. -/
theorem paths_fromRows : (fromRows rows).paths = ofPairs (pathRows rows) := by
  induction rows using List.reverseRecOn with
  | nil => rfl
  | append_singleton rows row ih =>
      rw [fromRows_concat, insertRow, pathRows, List.filter_append, List.map_append, ← pathRows]
      cases hconf : Confidence.fromI64 row.2.2 with
      | path =>
          rw [List.filter_cons_of_pos (by simp [hconf]), List.filter_nil, ofPairs, insertAll,
            List.foldl_append]
          refine paths_insertPath.trans ?_
          rw [ih]
          rfl
      | basename =>
          rw [List.filter_cons_of_neg (by simp [hconf]), List.filter_nil, List.map_nil,
            List.append_nil, ← ih]
          rfl

/-- The claimants that are read back. -/
theorem mem_claimants_fromRows :
    g ∈ (fromRows rows).claimants key ↔ ListsBasename rows key g := by
  induction rows using List.reverseRecOn with
  | nil => simp [fromRows, new, claimants, ListsBasename]
  | append_singleton rows row ih =>
      obtain ⟨key', g', v⟩ := row
      have hlists : ListsBasename (rows ++ [(key', g', v)]) key g ↔
          (Confidence.fromI64 v = .basename ∧ key = key' ∧ g = g') ∨ ListsBasename rows key g := by
        constructor
        · rintro ⟨v', hmem, hconf⟩
          rcases List.mem_append.mp hmem with hmem | hmem
          · exact .inr ⟨v', hmem, hconf⟩
          · obtain ⟨rfl, rfl, rfl⟩ : key = key' ∧ g = g' ∧ v' = v := by simpa using hmem
            exact .inl ⟨hconf, rfl, rfl⟩
        · rintro (⟨hconf, rfl, rfl⟩ | ⟨v', hmem, hconf⟩)
          · exact ⟨v, by simp, hconf⟩
          · exact ⟨v', List.mem_append_left _ hmem, hconf⟩
      rw [fromRows_concat, insertRow, hlists, ← ih]
      cases Confidence.fromI64 v with
      | path => simp [insertPath, claimants]
      | basename =>
          rw [mem_claimants_pushBasename]
          simp

/-- The paths that are stored. -/
theorem pathRows_toRows (idx : ExeIndex) :
    pathRows idx.toRows = idx.byPath.entries.map fun e => (e.1, e.2) := by
  rw [pathRows, toRows, List.filter_append, List.filter_eq_self.mpr, List.filter_eq_nil_iff.mpr,
    List.append_nil, List.map_map]
  · rfl
  · intro row hrow
    obtain ⟨e, -, he⟩ := List.mem_filterMap.mp hrow
    split at he
    · cases he
      simp [Confidence.fromI64, Confidence.asI64]
    · cases he
  · intro row hrow
    obtain ⟨e, -, rfl⟩ := List.mem_map.mp hrow
    simp [Confidence.fromI64, Confidence.asI64]

/-- Only a basename that one game alone claims is stored. -/
theorem listsBasename_toRows (idx : ExeIndex) :
    ListsBasename idx.toRows key g ↔ idx.byBasename.lookup key = some [g] := by
  constructor
  · rintro ⟨v, hmem, hconf⟩
    rcases List.mem_append.mp hmem with hmem | hmem
    · obtain ⟨e, -, heq⟩ := List.mem_map.mp hmem
      obtain rfl : Confidence.path.asI64 = v := by
        have hv := congrArg (fun r : ExeRow => r.2.2) heq
        exact hv
      cases hconf
    · obtain ⟨⟨k, games⟩, he, heq⟩ := List.mem_filterMap.mp hmem
      dsimp only at heq
      split at heq
      · rename_i only
        obtain ⟨rfl, rfl, -⟩ : k = key ∧ only = g ∧ _ = v := by simpa using heq
        exact AList.mem_lookup_iff.mpr he
      · cases heq
  · intro hlookup
    refine ⟨Confidence.basename.asI64, List.mem_append_right _ ?_, rfl⟩
    exact List.mem_filterMap.mpr ⟨⟨key, [g]⟩, AList.mem_lookup_iff.mp hlookup, rfl⟩

/-- **Persisting an index loses no answer**, whatever the order of the rows. -/
theorem matchExe_fromRows (pf : Platform) (hrows : rows.Perm idx.toRows) (path : String) :
    (fromRows rows).matchExe pf path = idx.matchExe pf path := by
  have hpaths : (fromRows rows).paths = idx.paths := by
    funext k
    have hperm : (pathRows rows).Perm (idx.byPath.entries.map fun e => (e.1, e.2)) := by
      rw [← pathRows_toRows]
      exact (hrows.filter _).map _
    have hnodup : ((pathRows rows).map Prod.fst).Nodup := by
      refine (hperm.map Prod.fst).nodup_iff.mpr ?_
      rw [List.map_map]
      exact idx.byPath.nodupKeys
    refine Option.ext fun g => ?_
    rw [paths_fromRows, ofPairs_eq_some_iff hnodup, hperm.mem_iff, paths]
    refine Iff.trans ?_ AList.mem_lookup_iff.symm
    simp only [List.mem_map, Prod.mk.injEq]
    constructor
    · rintro ⟨e, he, rfl, rfl⟩
      exact he
    · intro he
      exact ⟨⟨k, g⟩, he, rfl, rfl⟩
  have hsingle : ∀ key g, (fromRows rows).claimants key = [g] ↔ idx.claimants key = [g] := by
    intro key g
    have hlists : ∀ g', ListsBasename rows key g' ↔ idx.byBasename.lookup key = some [g'] := by
      intro g'
      rw [← listsBasename_toRows]
      exact exists_congr fun v => and_congr_left' hrows.mem_iff
    rw [distinct_fromRows.claimants_eq_singleton]
    simp only [mem_claimants_fromRows, hlists]
    rw [claimants]
    constructor
    · intro h
      rw [(h g).mpr rfl, Option.getD_some]
    · intro h g'
      cases hlookup : idx.byBasename.lookup key with
      | none =>
          rw [hlookup] at h
          cases h
      | some games =>
          rw [hlookup, Option.getD_some] at h
          subst h
          simp [eq_comm]
  rw [matchExe_eq, matchExe_eq, hpaths]
  exact answer_congr hsingle path

end Rows

/-! ## What the index answers -/

variable (pf : Platform)

/-- The game that made the last insertion with the key of the path. -/
def lastClaim (claims : List (String × GameId)) (path : String) : Option GameId :=
  ofPairs (claims.map fun c => (exeKey pf c.1, c.2)) (exeKey pf path)

/-- No path is claimed by two games. -/
def Unshared (claims : List (String × GameId)) : Prop :=
  ∀ c ∈ claims, ∀ c' ∈ claims, exeKey pf c.1 = exeKey pf c'.1 → c.2 = c'.2

variable {pf} {claims claims' : List (String × GameId)} {path : String} {g : GameId}

/-- Where no path is shared, any insertion is the last one. -/
theorem lastClaim_eq_some_iff (h : Unshared pf claims) :
    lastClaim pf claims path = some g ↔
      ∃ exe, (exe, g) ∈ claims ∧ exeKey pf exe = exeKey pf path := by
  constructor
  · intro hlast
    obtain ⟨c, hc, heq⟩ := List.mem_map.mp (mem_of_ofPairs_eq_some hlast)
    obtain ⟨hkey, rfl⟩ := Prod.mk.inj heq
    exact ⟨c.1, hc, hkey⟩
  · rintro ⟨exe, hexe, hkey⟩
    cases hlast : lastClaim pf claims path with
    | none =>
        refine absurd ?_ (ofPairs_eq_none_iff.mp hlast)
        rw [List.map_map, ← hkey]
        exact List.mem_map_of_mem hexe
    | some g' =>
        obtain ⟨c, hc, heq⟩ := List.mem_map.mp (mem_of_ofPairs_eq_some hlast)
        obtain ⟨hkey', rfl⟩ := Prod.mk.inj heq
        exact congrArg some (h c hc (exe, g) hexe (hkey'.trans hkey.symm))

theorem matchExe_eq_path_iff :
    (ofClaims pf claims).matchExe pf path = some (g, .path) ↔
      lastClaim pf claims path = some g := by
  rw [matchExe_eq, answer_eq_path_iff, paths_ofClaims]
  rfl

theorem matchExe_eq_basename_iff :
    (ofClaims pf claims).matchExe pf path = some (g, .basename) ↔ lastClaim pf claims path = none ∧
      ∃ key, basenameKey pf path = some key ∧ ∀ g', Claims pf claims key g' ↔ g' = g := by
  rw [matchExe_eq, answer_eq_basename_iff, paths_ofClaims]
  simp only [distinct_ofClaims.claimants_eq_singleton, mem_claimants_ofClaims]
  rfl

/-- The order of the insertions does not matter where no path is shared. -/
theorem matchExe_perm (h : Unshared pf claims) (hperm : claims'.Perm claims) (path : String) :
    (ofClaims pf claims').matchExe pf path = (ofClaims pf claims).matchExe pf path := by
  have h' : Unshared pf claims' := fun c hc c' hc' =>
    h c (hperm.mem_iff.mp hc) c' (hperm.mem_iff.mp hc')
  have hlast : lastClaim pf claims' path = lastClaim pf claims path := by
    refine Option.ext fun g => ?_
    rw [lastClaim_eq_some_iff h', lastClaim_eq_some_iff h]
    exact exists_congr fun exe => and_congr_left' hperm.mem_iff
  have hclaims : ∀ key g, Claims pf claims' key g ↔ Claims pf claims key g := fun key g =>
    exists_congr fun exe => and_congr_left' hperm.mem_iff
  refine Option.ext fun r => ?_
  obtain ⟨g, conf⟩ := r
  cases conf with
  | path => rw [matchExe_eq_path_iff, matchExe_eq_path_iff, hlast]
  | basename =>
      rw [matchExe_eq_basename_iff, matchExe_eq_basename_iff, hlast]
      simp only [hclaims]

/-- **The index answers from the insertions alone.**  A path is answered with the game of the last
insertion of its key; else with the only game that has inserted an executable of its basename;
else not at all.  Where no path is shared the order of the insertions does not matter, and the
index that is rebuilt from the persisted rows, in any order, gives the same answers. -/
theorem answers_from_claims (pf : Platform) (claims : List (String × GameId)) (path : String) :
    (∀ g, (ofClaims pf claims).matchExe pf path = some (g, .path) ↔
        lastClaim pf claims path = some g) ∧
      (∀ g, (ofClaims pf claims).matchExe pf path = some (g, .basename) ↔
        lastClaim pf claims path = none ∧
          ∃ key, basenameKey pf path = some key ∧ ∀ g', Claims pf claims key g' ↔ g' = g) ∧
      (Unshared pf claims → ∀ claims', claims'.Perm claims →
        (ofClaims pf claims').matchExe pf path = (ofClaims pf claims).matchExe pf path) ∧
      ∀ rows, rows.Perm (ofClaims pf claims).toRows →
        (fromRows rows).matchExe pf path = (ofClaims pf claims).matchExe pf path :=
  ⟨fun _ => matchExe_eq_path_iff, fun _ => matchExe_eq_basename_iff,
    fun h _ hperm => matchExe_perm h hperm path, fun _ hrows => matchExe_fromRows pf hrows path⟩

end ExeIndex

end Savr
