import Mathlib.Logic.Function.Basic
import Mathlib.Data.List.Basic
import Mathlib.Data.List.Nodup

/-!
# Keyed maps, bulk insertion and bulk removal

A keyed map is a function `K → Option V`.  `insertAll` writes a list of pairs in
order (a later pair with the same key wins) and `removeAll` drops a list of keys.
A *patch* is the two together: the pairs first, then the removals.

`patch_eq` is the one rule: it reads off, key by key, when a patch takes one map
to another.
-/

namespace KeyedMap

universe u v

variable {K : Type u} {V : Type v} [DecidableEq K]

/-- Write every pair into the map, in order. -/
def insertAll (m : K → Option V) (pairs : List (K × V)) : K → Option V :=
  pairs.foldl (fun m p => Function.update m p.1 (some p.2)) m

/-- Drop every listed key from the map. -/
def removeAll (m : K → Option V) (keys : List K) : K → Option V :=
  keys.foldl (fun m k => Function.update m k none) m

/-- The map a list of pairs denotes: later pairs win. -/
def ofPairs (pairs : List (K × V)) : K → Option V :=
  insertAll (fun _ => none) pairs

/-- A patch: the pairs first, then the removals. -/
def patch (m : K → Option V) (pairs : List (K × V)) (keys : List K) : K → Option V :=
  removeAll (insertAll m pairs) keys

@[simp] theorem insertAll_nil (m : K → Option V) : insertAll m [] = m := rfl

@[simp] theorem insertAll_cons (m : K → Option V) (p : K × V) (pairs : List (K × V)) :
    insertAll m (p :: pairs) = insertAll (Function.update m p.1 (some p.2)) pairs := rfl

@[simp] theorem removeAll_cons (m : K → Option V) (k : K) (keys : List K) :
    removeAll m (k :: keys) = removeAll (Function.update m k none) keys := rfl

@[simp] theorem removeAll_nil (m : K → Option V) : removeAll m [] = m := rfl

/-- A removed key has nothing, and the others have what they had. -/
theorem removeAll_apply (m : K → Option V) (keys : List K) (k : K) :
    removeAll m keys k = if k ∈ keys then none else m k := by
  induction keys generalizing m with
  | nil => simp
  | cons a keys ih =>
      rw [removeAll_cons, ih]
      by_cases hk : k ∈ keys
      · simp [hk]
      · by_cases hka : k = a
        · simp [hka]
        · simp [hk, hka]

/-- A key no pair writes keeps its value. -/
theorem insertAll_apply_of_notMem (m : K → Option V) {pairs : List (K × V)} {k : K}
    (hk : k ∉ pairs.map Prod.fst) : insertAll m pairs k = m k := by
  induction pairs generalizing m with
  | nil => rfl
  | cons p pairs ih =>
      rw [List.map_cons, List.mem_cons, not_or] at hk
      rw [insertAll_cons, ih _ hk.2, Function.update_of_ne hk.1]

/-- With distinct keys, every pair is found. -/
theorem insertAll_apply_of_mem (m : K → Option V) {pairs : List (K × V)} {k : K} {v : V}
    (hnd : (pairs.map Prod.fst).Nodup) (hmem : (k, v) ∈ pairs) :
    insertAll m pairs k = some v := by
  induction pairs generalizing m with
  | nil => cases hmem
  | cons p pairs ih =>
      rw [List.map_cons, List.nodup_cons] at hnd
      rw [insertAll_cons]
      rcases List.mem_cons.mp hmem with rfl | hmem
      · rw [insertAll_apply_of_notMem _ hnd.1]
        simp
      · exact ih _ hnd.2 hmem

/-- What a list of pairs denotes always comes from one of its pairs. -/
theorem mem_of_insertAll_eq_some {m : K → Option V} {pairs : List (K × V)} {k : K} {v : V}
    (h : insertAll m pairs k = some v) : (k, v) ∈ pairs ∨ m k = some v := by
  induction pairs generalizing m with
  | nil => exact Or.inr h
  | cons p pairs ih =>
      rw [insertAll_cons] at h
      rcases ih h with hmem | hold
      · exact Or.inl (List.mem_cons_of_mem _ hmem)
      · by_cases hk : k = p.1
        · subst hk
          rw [Function.update_self] at hold
          obtain rfl := Option.some.inj hold
          exact Or.inl List.mem_cons_self
        · rw [Function.update_of_ne hk] at hold
          exact Or.inr hold

theorem mem_of_ofPairs_eq_some {pairs : List (K × V)} {k : K} {v : V}
    (h : ofPairs pairs k = some v) : (k, v) ∈ pairs := by
  rcases mem_of_insertAll_eq_some h with hmem | hnone
  · exact hmem
  · cases hnone

/-- A key is absent exactly when no pair has it. -/
theorem ofPairs_eq_none_iff {pairs : List (K × V)} {k : K} :
    ofPairs pairs k = none ↔ k ∉ pairs.map Prod.fst := by
  constructor
  · intro h hmem
    obtain ⟨⟨k', v⟩, hp, rfl⟩ := List.mem_map.mp hmem
    obtain ⟨pre, post, rfl⟩ := List.append_of_mem hp
    -- the value at the key after its last write is never `none`
    have hsome : ∀ (qs : List (K × V)) (m : K → Option V),
        (m k').isSome → (insertAll m qs k').isSome := by
      intro qs
      induction qs with
      | nil => exact fun _ hm => hm
      | cons q qs ih =>
          intro m hm
          refine ih _ ?_
          by_cases hq : k' = q.1
          · simp [hq]
          · simpa [Function.update_of_ne hq] using hm
    have hcons : ofPairs (pre ++ (k', v) :: post) =
        insertAll (Function.update (ofPairs pre) k' (some v)) post := by
      simp [ofPairs, insertAll, List.foldl_append]
    have := hsome post (Function.update (ofPairs pre) k' (some v)) (by simp)
    rw [hcons] at h
    simp [h] at this
  · intro h
    exact insertAll_apply_of_notMem _ h

theorem ofPairs_eq_some_iff {pairs : List (K × V)} (hnd : (pairs.map Prod.fst).Nodup)
    {k : K} {v : V} : ofPairs pairs k = some v ↔ (k, v) ∈ pairs :=
  ⟨mem_of_ofPairs_eq_some, insertAll_apply_of_mem _ hnd⟩

/-- A key that is inserted has what is inserted for it, and the others have what they had. -/
theorem insertAll_apply (m : K → Option V) (pairs : List (K × V)) (k : K) :
    insertAll m pairs k = (ofPairs pairs k).or (m k) := by
  induction pairs generalizing m with
  | nil => rfl
  | cons p pairs ih =>
      have hcons : ofPairs (p :: pairs) k = (ofPairs pairs k).or
          (Function.update (fun _ => none) p.1 (some p.2) k) := ih _
      rw [insertAll_cons, ih, hcons, Function.update_apply, Function.update_apply]
      split_ifs
      · cases ofPairs pairs k <;> rfl
      · cases ofPairs pairs k <;> rfl

/-- In two lists one after the other, the second one wins. -/
theorem ofPairs_append (pairs more : List (K × V)) (k : K) :
    ofPairs (pairs ++ more) k = (ofPairs more k).or (ofPairs pairs k) := by
  rw [← insertAll_apply, ofPairs, insertAll, List.foldl_append]
  rfl

/-- Mapping the values commutes with inserting. -/
theorem insertAll_map_snd {W : Type*} (h : V → W) (m : K → Option V) (pairs : List (K × V)) :
    insertAll (fun k => (m k).map h) (pairs.map fun p => (p.1, h p.2)) =
      fun k => (insertAll m pairs k).map h := by
  induction pairs generalizing m with
  | nil => rfl
  | cons p pairs ih =>
      rw [List.map_cons, insertAll_cons, insertAll_cons, ← ih]
      congr 1
      funext k'
      by_cases hk : k' = p.1
      · simp [hk]
      · simp [hk]

theorem ofPairs_map_snd {W : Type*} (h : V → W) (pairs : List (K × V)) (k : K) :
    ofPairs (pairs.map fun p => (p.1, h p.2)) k = (ofPairs pairs k).map h :=
  congrFun (insertAll_map_snd h (fun _ => none) pairs) k

/-- Mapping the values commutes with patching. -/
theorem patch_map_snd {W : Type*} (h : V → W) (m : K → Option V) (pairs : List (K × V))
    (keys : List K) :
    patch (fun k => (m k).map h) (pairs.map fun p => (p.1, h p.2)) keys =
      fun k => (patch m pairs keys k).map h := by
  funext k
  rw [patch, patch, removeAll_apply, removeAll_apply, insertAll_map_snd]
  by_cases hk : k ∈ keys
  · simp [hk]
  · simp [hk]

/-- **The patch rule.**  A patch takes `m` to `target` as soon as its pairs are
pairs of `target`, its removals are absent from `target`, and `m` already agrees
with `target` on every key the patch does not mention. -/
theorem patch_eq {m target : K → Option V} {pairs : List (K × V)} {keys : List K}
    (hnd : (pairs.map Prod.fst).Nodup)
    (hput : ∀ k v, (k, v) ∈ pairs → target k = some v)
    (hdel : ∀ k ∈ keys, target k = none)
    (hrest : ∀ k, k ∉ pairs.map Prod.fst → k ∉ keys → m k = target k) :
    patch m pairs keys = target := by
  funext k
  rw [patch, removeAll_apply]
  by_cases hkeys : k ∈ keys
  · rw [if_pos hkeys, hdel k hkeys]
  · rw [if_neg hkeys]
    by_cases hk : k ∈ pairs.map Prod.fst
    · obtain ⟨⟨k', v⟩, hp, rfl⟩ := List.mem_map.mp hk
      rw [insertAll_apply_of_mem m hnd hp, hput _ _ hp]
    · rw [insertAll_apply_of_notMem m hk, hrest k hk hkeys]

end KeyedMap
