import Mathlib.Data.List.Basic
import Mathlib.Data.List.Chain
import Mathlib.Data.List.Nodup
import Mathlib.Data.List.Perm.Subperm

/-!
# Following parent pointers

A store maps keys to nodes; a node may point to a parent key, and some nodes stop
the walk.  `walk` is the loop that follows the pointers, with fuel: `none` is a
loop that has not ended yet, a `WalkError` is one that ended without a stopping
node.  `WalkTo` says, without fuel, what it means that the walk succeeds.

## Main results

* `walk_eq_some_ok_iff` — the loop succeeds, for some fuel, exactly on `WalkTo`.
* `WalkTo.unique`, `WalkTo.keys_nodup`, `WalkTo.length_le` — a successful walk is
  determined by its start, visits no key twice, and is no longer than the store.
* `WalkTo.map` — a walk carries over to any store that keeps its nodes.
* `exists_walk` — where pointers go down in some rank, the loop ends within one step
  for each stored node.
-/

namespace PointerWalk

universe u v w

variable {K : Type u} {V : Type v}

/-- Why a walk ended without reaching a stopping node. -/
inductive WalkError (K : Type u)
  /-- A pointer led to a key the store does not hold. -/
  | missing (key : K)
  /-- A node that does not stop the walk has no parent. -/
  | deadEnd
  deriving DecidableEq, Repr

variable (lookup : K → Option V) (stops : V → Bool) (next : V → Option K)

/-- The pointer-following loop.  The result lists the visited nodes, start
first; `none` means that the fuel ran out. -/
def walk : ℕ → Option K → Option (Except (WalkError K) (List V))
  | _, none => some (.error .deadEnd)
  | 0, some _ => none
  | fuel + 1, some k =>
      match lookup k with
      | none => some (.error (.missing k))
      | some v =>
          if stops v then some (.ok [v])
          else (walk fuel (next v)).map fun r => r.map (v :: ·)

/-- `WalkTo k c`: following pointers from `k` visits the nodes `c` and ends at a
stopping node. -/
inductive WalkTo : K → List V → Prop
  | last {k : K} {v : V} : lookup k = some v → stops v = true → WalkTo k [v]
  | step {k p : K} {v : V} {c : List V} :
      lookup k = some v → stops v = false → next v = some p → WalkTo p c →
      WalkTo k (v :: c)

variable {lookup stops next}

theorem walk_some_succ (fuel : ℕ) (k : K) :
    walk lookup stops next (fuel + 1) (some k) =
      match lookup k with
      | none => some (.error (.missing k))
      | some v =>
          if stops v then some (.ok [v])
          else (walk lookup stops next fuel (next v)).map fun r => r.map (v :: ·) := rfl

namespace WalkTo

variable {k : K} {c d : List V}

theorem ne_nil (h : WalkTo lookup stops next k c) : c ≠ [] := by
  cases h <;> simp

/-- The walk starts at the node stored under its start key. -/
theorem head_eq (h : WalkTo lookup stops next k c) :
    ∃ v rest, lookup k = some v ∧ c = v :: rest := by
  cases h with
  | last hv _ => exact ⟨_, _, hv, rfl⟩
  | step hv _ _ _ => exact ⟨_, _, hv, rfl⟩

/-- Every visited node is stored. -/
theorem exists_lookup (h : WalkTo lookup stops next k c) :
    ∀ v ∈ c, ∃ k', lookup k' = some v := by
  induction h with
  | last hv _ =>
      intro v hmem
      obtain rfl := List.mem_singleton.mp hmem
      exact ⟨_, hv⟩
  | step hv _ _ _ ih =>
      intro w hmem
      rcases List.mem_cons.mp hmem with rfl | hmem
      · exact ⟨_, hv⟩
      · exact ih w hmem

/-- A successful walk is determined by where it starts. -/
theorem unique (h : WalkTo lookup stops next k c) (h' : WalkTo lookup stops next k d) :
    c = d := by
  induction h generalizing d with
  | last hv hs =>
      cases h' with
      | last hv' _ => rw [hv] at hv'; cases hv'; rfl
      | step hv' hs' _ _ => rw [hv] at hv'; cases hv'; rw [hs] at hs'; cases hs'
  | step hv hs hp _ ih =>
      cases h' with
      | last hv' hs' => rw [hv] at hv'; cases hv'; rw [hs] at hs'; cases hs'
      | step hv' _ hp' hrest =>
          rw [hv] at hv'
          cases hv'
          rw [hp] at hp'
          cases hp'
          rw [ih hrest]

/-- The walk from any visited node is a proper suffix of the walk. -/
theorem length_lt_of_mem (h : WalkTo lookup stops next k c) {key : V → K}
    (hkey : ∀ k v, lookup k = some v → key v = k) :
    ∀ v ∈ c.tail, ∃ d, WalkTo lookup stops next (key v) d ∧ d.length < c.length := by
  induction h with
  | last _ _ => simp
  | @step k p v c hv hs hp hrest ih =>
      intro w hmem
      obtain ⟨x, rest, hx, rfl⟩ := hrest.head_eq
      rcases List.mem_cons.mp hmem with rfl | hmem
      · exact ⟨w :: rest, by rw [hkey _ _ hx]; exact hrest, by simp⟩
      · obtain ⟨d, hd, hlen⟩ := ih w hmem
        exact ⟨d, hd, by simp only [List.length_cons] at hlen ⊢; omega⟩

/-- No key is visited twice: the walk from a repeated key would be shorter than
itself. -/
theorem keys_nodup (h : WalkTo lookup stops next k c) {key : V → K}
    (hkey : ∀ k v, lookup k = some v → key v = k) : (c.map key).Nodup := by
  induction h with
  | last _ _ => simp
  | @step k p v c hv hs hp hrest ih =>
      rw [List.map_cons, List.nodup_cons]
      refine ⟨fun hmem => ?_, ih⟩
      obtain ⟨w, hw, hwk⟩ := List.mem_map.mp hmem
      have hwhole : WalkTo lookup stops next k (v :: c) := .step hv hs hp hrest
      obtain ⟨d, hd, hlen⟩ := hwhole.length_lt_of_mem hkey w hw
      rw [hwk, hkey _ _ hv] at hd
      rw [hd.unique hwhole] at hlen
      exact absurd hlen (Nat.lt_irrefl _)

/-- A walk is no longer than the list of stored nodes. -/
theorem length_le (h : WalkTo lookup stops next k c) {key : V → K}
    (hkey : ∀ k v, lookup k = some v → key v = k) {nodes : List V}
    (hnodes : ∀ k v, lookup k = some v → v ∈ nodes) : c.length ≤ nodes.length := by
  refine ((h.keys_nodup hkey).of_map key).length_le_of_subset fun v hv => ?_
  obtain ⟨k', hk'⟩ := h.exists_lookup v hv
  exact hnodes k' v hk'

/-- Nodes before the last one do not stop the walk; the last one does. -/
theorem stops_getLast (h : WalkTo lookup stops next k c) :
    ∃ pre v, c = pre ++ [v] ∧ stops v = true ∧ ∀ x ∈ pre, stops x = false := by
  induction h with
  | last _ hs => exact ⟨[], _, rfl, hs, by simp⟩
  | step _ hs _ _ ih =>
      obtain ⟨pre, v, rfl, hv, hpre⟩ := ih
      refine ⟨_ :: pre, v, rfl, hv, ?_⟩
      intro x hx
      rcases List.mem_cons.mp hx with rfl | hx
      · exact hs
      · exact hpre x hx

/-- A walk carries over to any store that holds an image of each of its nodes,
with the same stopping behaviour and the same pointers out of the nodes that do
not stop. -/
theorem map {lookup' : K → Option V} {f : V → V} (h : WalkTo lookup stops next k c)
    (hlookup : ∀ k' v, v ∈ c → lookup k' = some v → lookup' k' = some (f v))
    (hstops : ∀ v ∈ c, stops (f v) = stops v)
    (hnext : ∀ v ∈ c, stops v = false → next (f v) = next v) :
    WalkTo lookup' stops next k (c.map f) := by
  induction h with
  | last hv hs =>
      refine .last (hlookup _ _ (by simp) hv) ?_
      rw [hstops _ (by simp), hs]
  | step hv hs hp _ ih =>
      refine .step (hlookup _ _ (by simp) hv) ?_ ?_
        (ih (fun k' v hmem => hlookup k' v (List.mem_cons_of_mem _ hmem))
          (fun v hmem => hstops v (List.mem_cons_of_mem _ hmem))
          (fun v hmem => hnext v (List.mem_cons_of_mem _ hmem)))
      · rw [hstops _ (by simp), hs]
      · rw [hnext _ (by simp) hs, hp]

/-- Where pointers go down in rank, so does the walk. -/
theorem pairwise_rank (h : WalkTo lookup stops next k c) {rank : V → ℕ}
    (down : ∀ k v p w, lookup k = some v → next v = some p → lookup p = some w →
      rank w < rank v) : c.Pairwise fun v w => rank w < rank v := by
  have trans : IsTrans V fun v w => rank w < rank v := ⟨fun _ _ _ hab hbc => Nat.lt_trans hbc hab⟩
  rw [← List.isChain_iff_pairwise]
  induction h with
  | last _ _ => exact List.isChain_singleton _
  | step hv _ hp hrest ih =>
      obtain ⟨w, rest, hw, rfl⟩ := hrest.head_eq
      exact List.isChain_cons_cons.mpr ⟨down _ _ _ _ hv hp hw, ih⟩

end WalkTo

/-- A loop that has not ended has gone down through as many nodes as it had fuel. -/
theorem descent_of_walk_eq_none {rank : V → ℕ}
    (down : ∀ k v p w, lookup k = some v → next v = some p → lookup p = some w →
      rank w < rank v) {fuel : ℕ} :
    ∀ {k : K}, walk lookup stops next fuel (some k) = none →
      ∃ visited : List V, visited.length = fuel ∧ (∀ v ∈ visited, ∃ k', lookup k' = some v) ∧
        (∀ v ∈ visited.head?, lookup k = some v) ∧
        visited.IsChain fun v w => rank w < rank v := by
  induction fuel with
  | zero => exact fun _ => ⟨[], rfl, by simp, by simp, List.isChain_nil⟩
  | succ fuel ih =>
      intro k h
      rw [walk_some_succ] at h
      cases hv : lookup k with
      | none => simp [hv] at h
      | some v =>
          cases hs : stops v with
          | true => simp [hv, hs] at h
          | false =>
              simp only [hv, hs, Bool.false_eq_true, if_false, Option.map_eq_none_iff] at h
              cases hp : next v with
              | none => simp [hp, walk] at h
              | some p =>
                  rw [hp] at h
                  obtain ⟨visited, hlen, hstored, hhead, hchain⟩ := ih h
                  refine ⟨v :: visited, by simp [hlen], ?_, by simp, ?_⟩
                  · intro w hw
                    rcases List.mem_cons.mp hw with rfl | hw
                    · exact ⟨k, hv⟩
                    · exact hstored w hw
                  · exact List.isChain_cons.mpr
                      ⟨fun w hw => down k v p w hv hp (hhead w hw), hchain⟩

/-- **The loop ends.**  Where pointers go down in rank, fuel for one look-up more than
there are nodes is enough. -/
theorem exists_walk {rank : V → ℕ}
    (down : ∀ k v p w, lookup k = some v → next v = some p → lookup p = some w →
      rank w < rank v)
    {nodes : List V} (hnodes : ∀ k v, lookup k = some v → v ∈ nodes) {fuel : ℕ}
    (hfuel : nodes.length < fuel) (k : K) :
    ∃ r, walk lookup stops next fuel (some k) = some r := by
  cases hwalk : walk lookup stops next fuel (some k) with
  | some r => exact ⟨r, rfl⟩
  | none =>
      obtain ⟨visited, hlen, hstored, -, hchain⟩ := descent_of_walk_eq_none down hwalk
      have trans : IsTrans V fun v w => rank w < rank v :=
        ⟨fun _ _ _ hab hbc => Nat.lt_trans hbc hab⟩
      have hnodup : visited.Nodup :=
        (List.isChain_iff_pairwise.mp hchain).imp fun {v w} hlt heq => by
          rw [heq] at hlt
          exact absurd hlt (Nat.lt_irrefl _)
      have hsub : visited ⊆ nodes := fun v hv =>
        let ⟨k', hk'⟩ := hstored v hv
        hnodes k' v hk'
      have hle := hnodup.length_le_of_subset hsub
      omega

/-- With at least as much fuel as nodes to visit, the loop succeeds. -/
theorem walk_of_walkTo {k : K} {c : List V} (h : WalkTo lookup stops next k c) :
    ∀ {fuel : ℕ}, c.length ≤ fuel → walk lookup stops next fuel (some k) = some (.ok c) := by
  induction h with
  | last hv hs =>
      intro fuel hf
      obtain ⟨n, rfl⟩ : ∃ n, fuel = n + 1 := ⟨fuel - 1, by simp at hf; omega⟩
      simp [walk_some_succ, hv, hs]
  | step hv hs hp _ ih =>
      intro fuel hf
      rw [List.length_cons] at hf
      obtain ⟨n, rfl⟩ : ∃ n, fuel = n + 1 := ⟨fuel - 1, by omega⟩
      simp [walk_some_succ, hv, hs, hp, ih (show _ ≤ n by omega), Except.map]

/-- A loop that succeeds has walked to a stopping node. -/
theorem walkTo_of_walk {fuel : ℕ} : ∀ {k : K} {c : List V},
    walk lookup stops next fuel (some k) = some (.ok c) → WalkTo lookup stops next k c := by
  induction fuel with
  | zero => intro k c h; cases h
  | succ fuel ih =>
      intro k c h
      rw [walk_some_succ] at h
      cases hv : lookup k with
      | none => simp [hv] at h
      | some v =>
          simp only [hv] at h
          cases hs : stops v with
          | true =>
              simp only [hs, if_true, Option.some.injEq, Except.ok.injEq] at h
              subst h
              exact .last hv hs
          | false =>
              simp only [hs, Bool.false_eq_true, if_false, Option.map_eq_some_iff] at h
              obtain ⟨r, hr, hmap⟩ := h
              cases hp : next v with
              | none =>
                  rw [hp] at hr
                  unfold walk at hr
                  cases hr
                  cases hmap
              | some p =>
                  cases r with
                  | error e => cases hmap
                  | ok d =>
                      rw [hp] at hr
                      simp only [Except.map, Except.ok.injEq] at hmap
                      subst hmap
                      exact .step hv hs hp (ih hr)

/-- **The loop is its specification.**  With fuel for the whole store, the loop
succeeds with `c` exactly when the pointers lead through `c` to a stopping node. -/
theorem walk_eq_some_ok_iff {key : V → K} (hkey : ∀ k v, lookup k = some v → key v = k)
    {nodes : List V} (hnodes : ∀ k v, lookup k = some v → v ∈ nodes) {fuel : ℕ}
    (hfuel : nodes.length ≤ fuel) {k : K} {c : List V} :
    walk lookup stops next fuel (some k) = some (.ok c) ↔
      WalkTo lookup stops next k c :=
  ⟨walkTo_of_walk, fun h => walk_of_walkTo h (Nat.le_trans (h.length_le hkey hnodes) hfuel)⟩

end PointerWalk
