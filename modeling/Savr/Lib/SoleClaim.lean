import Mathlib.Data.List.AList
import Mathlib.Data.List.Induction

/-!
# Sole claimants

Claimants put in claims for keys, one after the other, and an index remembers for each key
its claimant, or that there is more than one.  A key that has become ambiguous stays so.

## Main results

* `represents_ofClaims` — what the index says of a key, after any list of claims.
* `lookup_eq_one_iff` — when a key has a sole claimant.
-/

namespace SoleClaim

universe u v

variable {κ : Type u} {α : Type v} [DecidableEq κ] [DecidableEq α]

/-- What is known of a key that is claimed. -/
inductive Claim (α : Type v)
  | one (claimant : α)
  | ambiguous
  deriving DecidableEq, Repr

/-- The keys that are claimed. -/
abbrev Index (κ : Type u) (α : Type v) := AList fun _ : κ => Claim α

namespace Index

/-- A claimant puts in a claim. -/
def add (index : Index κ α) (key : κ) (claimant : α) : Index κ α :=
  match index.lookup key with
  | none => index.insert key (.one claimant)
  | some (.one existing) =>
      if existing ≠ claimant then index.insert key .ambiguous else index
  | some .ambiguous => index

/-- The index after these claims. -/
def ofClaims (claims : List (κ × α)) : Index κ α :=
  claims.foldl (fun index c => index.add c.1 c.2) ∅

end Index

/-- The entry tells how many claimants there are among these claims. -/
def Represents (claims : List (κ × α)) (key : κ) : Option (Claim α) → Prop
  | none => ∀ a, (key, a) ∉ claims
  | some (.one a) => (key, a) ∈ claims ∧ ∀ b, (key, b) ∈ claims → b = a
  | some .ambiguous => ∃ a b, a ≠ b ∧ (key, a) ∈ claims ∧ (key, b) ∈ claims

variable {index : Index κ α} {claims : List (κ × α)} {key key' : κ} {claimant a : α}

/-- A claim changes the answer for its own key alone. -/
theorem lookup_add_of_ne (hne : key' ≠ key) :
    (index.add key claimant).lookup key' = index.lookup key' := by
  unfold Index.add
  split
  · exact AList.lookup_insert_ne hne
  · split_ifs
    · exact AList.lookup_insert_ne hne
    · rfl
  · rfl

omit [DecidableEq κ] [DecidableEq α] in
/-- A claim for another key changes nothing. -/
theorem Represents.concat_other {entry : Option (Claim α)} (h : Represents claims key entry)
    (hne : key ≠ key') : Represents (claims ++ [(key', claimant)]) key entry := by
  have hmem : ∀ a, (key, a) ∈ claims ++ [(key', claimant)] ↔ (key, a) ∈ claims := by
    intro a
    simp [hne]
  match entry, h with
  | none, h => exact fun a => (hmem a).not.mpr (h a)
  | some (.one a), h => exact ⟨(hmem a).mpr h.1, fun b hb => h.2 b ((hmem b).mp hb)⟩
  | some .ambiguous, ⟨a, b, hab, ha, hb⟩ => exact ⟨a, b, hab, (hmem a).mpr ha, (hmem b).mpr hb⟩

/-- One more claim for the key. -/
theorem Represents.concat (h : Represents claims key (index.lookup key)) :
    Represents (claims ++ [(key, claimant)]) key ((index.add key claimant).lookup key) := by
  have hmem : ∀ a, (key, a) ∈ claims ++ [(key, claimant)] ↔ (key, a) ∈ claims ∨ a = claimant := by
    intro a
    simp
  unfold Index.add
  cases hentry : index.lookup key with
  | none =>
      rw [hentry] at h
      rw [AList.lookup_insert]
      refine ⟨(hmem claimant).mpr (.inr rfl), fun b hb => ?_⟩
      exact ((hmem b).mp hb).resolve_left (h b)
  | some entry =>
      rw [hentry] at h
      cases entry with
      | one existing =>
          obtain ⟨hold, hsole⟩ := h
          dsimp only
          by_cases hsame : existing = claimant
          · rw [if_neg (not_not_intro hsame), hentry]
            refine ⟨(hmem existing).mpr (.inl hold), fun b hb => ?_⟩
            rcases (hmem b).mp hb with hb | rfl
            · exact hsole b hb
            · exact hsame.symm
          · rw [if_pos hsame, AList.lookup_insert]
            exact ⟨existing, claimant, hsame, (hmem existing).mpr (.inl hold),
              (hmem claimant).mpr (.inr rfl)⟩
      | ambiguous =>
          obtain ⟨a, b, hab, ha, hb⟩ := h
          rw [hentry]
          exact ⟨a, b, hab, (hmem a).mpr (.inl ha), (hmem b).mpr (.inl hb)⟩

/-- **The index tells the number of claimants**, whatever the claims and their order. -/
theorem represents_ofClaims (claims : List (κ × α)) (key : κ) :
    Represents claims key ((Index.ofClaims claims).lookup key) := by
  induction claims using List.reverseRecOn with
  | nil => exact fun a ha => by cases ha
  | append_singleton claims c ih =>
      have hfold : Index.ofClaims (claims ++ [c]) = (Index.ofClaims claims).add c.1 c.2 := by
        rw [Index.ofClaims, List.foldl_append]
        rfl
      rw [hfold]
      by_cases hkey : key = c.1
      · subst hkey
        exact ih.concat
      · rw [lookup_add_of_ne hkey]
        exact ih.concat_other hkey

omit [DecidableEq κ] [DecidableEq α] in
/-- One entry fits. -/
theorem Represents.unique {entry entry' : Option (Claim α)} (h : Represents claims key entry)
    (h' : Represents claims key entry') : entry = entry' := by
  match entry, entry', h, h' with
  | none, none, _, _ => rfl
  | some .ambiguous, some .ambiguous, _, _ => rfl
  | some (.one a), some (.one b), h, h' => rw [h'.2 a h.1]
  | none, some (.one a), h, h' => exact absurd h'.1 (h a)
  | some (.one a), none, h, h' => exact absurd h.1 (h' a)
  | none, some .ambiguous, h, ⟨a, _, _, ha, _⟩ => exact absurd ha (h a)
  | some .ambiguous, none, ⟨a, _, _, ha, _⟩, h' => exact absurd ha (h' a)
  | some (.one c), some .ambiguous, h, ⟨a, b, hab, ha, hb⟩ =>
      exact absurd ((h.2 a ha).trans (h.2 b hb).symm) hab
  | some .ambiguous, some (.one c), ⟨a, b, hab, ha, hb⟩, h' =>
      exact absurd ((h'.2 a ha).trans (h'.2 b hb).symm) hab

/-- A key has one answer exactly when one claimant, and no other, claims it. -/
theorem lookup_eq_one_iff : (Index.ofClaims claims).lookup key = some (.one a) ↔
    (key, a) ∈ claims ∧ ∀ b, (key, b) ∈ claims → b = a := by
  have hrep := represents_ofClaims claims key
  constructor
  · intro h
    rw [h] at hrep
    exact hrep
  · intro h
    have hone : Represents claims key (some (.one a)) := h
    exact hrep.unique hone

end SoleClaim
