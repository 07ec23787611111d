import Mathlib.Data.List.Basic
import Mathlib.Tactic

/-!
# Writing through temporary places

Each item of a list is written to a temporary place first and moved to its own place then.
Afterwards its temporary place is empty, and its own place holds its content, until a later
item comes along that uses the same place.

## Main results

* `placeAll_of_untouched` — a place that no item uses is as it was.
* `placeAll_of_last` — the last item that uses a place decides what is there.
* `placeAll_dest_iff` — an item is in its place at the end exactly when no later item had its
  temporary place there.
-/

namespace Placing

universe u v w

variable {K : Type u} {V : Type v} {α : Type w} [DecidableEq K] (dest tmp : α → K)
  (content : α → Option V)

/-- Write one item. -/
def place (m : K → Option V) (a : α) : K → Option V :=
  Function.update (Function.update m (tmp a) none) (dest a) (content a)

/-- Place one after the other. -/
def placeAll (m : K → Option V) (xs : List α) : K → Option V :=
  xs.foldl (place dest tmp content) m

variable {dest tmp content} {m : K → Option V} {xs before after : List α} {a : α} {k : K}

/-- The item uses the place. -/
def Uses (dest tmp : α → K) (a : α) (k : K) : Prop := dest a = k ∨ tmp a = k

instance : Decidable (Uses dest tmp a k) := inferInstanceAs (Decidable (_ ∨ _))

theorem place_of_not_uses (h : ¬ Uses dest tmp a k) : place dest tmp content m a k = m k := by
  obtain ⟨hdest, htmp⟩ := not_or.mp h
  rw [place, Function.update_of_ne (Ne.symm hdest), Function.update_of_ne (Ne.symm htmp)]

theorem place_of_uses (h : Uses dest tmp a k) :
    place dest tmp content m a k = if dest a = k then content a else none := by
  rw [place]
  by_cases hdest : dest a = k
  · rw [if_pos hdest, ← hdest, Function.update_self]
  · have htmp : tmp a = k := h.resolve_left hdest
    rw [if_neg hdest, Function.update_of_ne (Ne.symm hdest), htmp, Function.update_self]

theorem placeAll_of_untouched (h : ∀ a ∈ xs, ¬ Uses dest tmp a k) :
    placeAll dest tmp content m xs k = m k := by
  induction xs generalizing m with
  | nil => rfl
  | cons a xs ih =>
      obtain ⟨ha, hxs⟩ := List.forall_mem_cons.mp h
      rw [placeAll, List.foldl_cons, ← placeAll, ih hxs, place_of_not_uses ha]

theorem placeAll_of_last (huses : Uses dest tmp a k) (hafter : ∀ b ∈ after, ¬ Uses dest tmp b k) :
    placeAll dest tmp content m (before ++ a :: after) k
      = if dest a = k then content a else none := by
  rw [placeAll, List.foldl_append, List.foldl_cons, ← placeAll, placeAll_of_untouched hafter,
    place_of_uses huses]

/-- A place that is empty and no item's own stays empty. -/
theorem placeAll_eq_none (hdest : ∀ a ∈ xs, dest a ≠ k) (hm : m k = none) :
    placeAll dest tmp content m xs k = none := by
  induction xs generalizing m with
  | nil => exact hm
  | cons a xs ih =>
      obtain ⟨ha, hxs⟩ := List.forall_mem_cons.mp hdest
      rw [placeAll, List.foldl_cons, ← placeAll]
      refine ih hxs ?_
      rw [place, Function.update_of_ne (Ne.symm ha)]
      by_cases htmp : tmp a = k
      · rw [htmp, Function.update_self]
      · rw [Function.update_of_ne (Ne.symm htmp), hm]

/-- Among the items, the last one that uses a place. -/
theorem exists_last (dest tmp : α → K) (h : ∃ a ∈ xs, Uses dest tmp a k) :
    ∃ before a after, xs = before ++ a :: after ∧ Uses dest tmp a k ∧
      ∀ b ∈ after, ¬ Uses dest tmp b k := by
  induction xs with
  | nil =>
      obtain ⟨a, ha, -⟩ := h
      cases ha
  | cons x xs ih =>
      by_cases hxs : ∃ a ∈ xs, Uses dest tmp a k
      · obtain ⟨before, a, after, rfl, huses, hafter⟩ := ih hxs
        exact ⟨x :: before, a, after, rfl, huses, hafter⟩
      · push Not at hxs
        obtain ⟨a, ha, huses⟩ := h
        rcases List.mem_cons.mp ha with rfl | ha
        · exact ⟨[], a, xs, rfl, huses, hxs⟩
        · exact absurd huses (hxs a ha)

/-- **When an item is in its place at the end**, among items with places of their own. -/
theorem placeAll_dest_iff {c : V} (hcontent : content a = some c)
    (distinct : ∀ b ∈ after, dest b ≠ dest a) :
    placeAll dest tmp content m (before ++ a :: after) (dest a) = some c ↔
      ∀ b ∈ after, tmp b ≠ dest a := by
  constructor
  · intro hplaced b hb htmp
    obtain ⟨front, last, rest, rfl, huses, hrest⟩ :=
      exists_last dest tmp ⟨b, hb, .inr htmp⟩
    have hlast : dest last ≠ dest a := distinct last (by simp)
    rw [← List.cons_append, ← List.append_assoc, placeAll_of_last huses hrest,
      if_neg hlast] at hplaced
    cases hplaced
  · intro htmp
    rw [placeAll_of_last (.inl rfl) fun b hb => not_or.mpr ⟨distinct b hb, htmp b hb⟩, if_pos rfl,
      hcontent]

/-- Where no item has its temporary place, the items are in their places. -/
theorem placeAll_of_mem (ha : a ∈ xs) (distinct : ∀ b ∈ xs, dest b = dest a → b = a)
    (htmp : ∀ b ∈ xs, tmp b = dest a → b = a) :
    placeAll dest tmp content m xs (dest a) = content a := by
  obtain ⟨before, b, after, rfl, huses, hafter⟩ := exists_last dest tmp ⟨a, ha, .inl rfl⟩
  have hb : b = a := huses.elim (distinct b (by simp)) (htmp b (by simp))
  rw [placeAll_of_last huses hafter, hb, if_pos rfl]

end Placing
