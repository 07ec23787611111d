import Mathlib.Data.List.Basic
import Mathlib.Data.List.Infix
import Mathlib.Tactic

/-!
# The common start of lists

`sharedWith a b` is what two lists have in common from their beginning on, and
`commonStart a l` what `a` has in common with every list of `l`.  Both are described by
their beginnings: `le_commonStart_iff` says that a list starts the common start exactly
when it starts all of them.
-/

namespace CommonStart

universe u

variable {α : Type u}

/-- A list with the same beginnings is the same list. -/
theorem eq_of_starts {a b : List α} (h : ∀ s, s <+: a ↔ s <+: b) : a = b :=
  ((h a).mp (List.prefix_refl a)).eq_of_length_le
    ((h b).mpr (List.prefix_refl b)).length_le

variable [DecidableEq α]

/-- The common start of two lists: compare position by position, and cut at the first
difference. -/
def sharedWith (a b : List α) : List α :=
  a.take ((a.zip b).takeWhile fun p => p.1 = p.2).length

/-- The common start of a list and some others. -/
def commonStart (a : List α) (l : List (List α)) : List α :=
  l.foldl sharedWith a

variable {a b s : List α} {l : List (List α)}

theorem sharedWith_cons_cons (x y : α) (a b : List α) :
    sharedWith (x :: a) (y :: b) = if x = y then x :: sharedWith a b else [] := by
  by_cases h : x = y
  · simp [sharedWith, h]
  · simp [sharedWith, h]

/-- The shared start is the longest beginning of both. -/
theorem le_sharedWith_iff : s <+: sharedWith a b ↔ s <+: a ∧ s <+: b := by
  induction s generalizing a b with
  | nil => simp
  | cons z s ih =>
      cases a with
      | nil => simp [sharedWith]
      | cons x a =>
          cases b with
          | nil => simp [sharedWith]
          | cons y b =>
              rw [sharedWith_cons_cons]
              by_cases h : x = y
              · subst h
                rw [if_pos rfl, List.cons_prefix_cons, List.cons_prefix_cons,
                  List.cons_prefix_cons, ih]
                tauto
              · rw [if_neg h, List.cons_prefix_cons, List.cons_prefix_cons]
                constructor
                · intro hnil
                  simp at hnil
                · rintro ⟨⟨rfl, -⟩, rfl, -⟩
                  exact absurd rfl h

/-- **The common start.**  A list starts it exactly when it starts every one of them. -/
theorem le_commonStart_iff : s <+: commonStart a l ↔ s <+: a ∧ ∀ b ∈ l, s <+: b := by
  induction l generalizing a with
  | nil => simp [commonStart]
  | cons b l ih =>
      change s <+: commonStart (sharedWith a b) l ↔ _
      rw [ih, le_sharedWith_iff, List.forall_mem_cons, and_assoc]

end CommonStart
