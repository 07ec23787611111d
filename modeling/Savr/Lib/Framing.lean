import Mathlib.Data.List.Basic
import Mathlib.Tactic

/-!
# Length-prefixed framing

What a format that writes a length in front of each of its records needs: the
little-endian bytes of a number, and where a cut of a concatenation of frames falls.

A cut after `k` bytes keeps the first `whole frames k` frames and `trailing frames k`
bytes of the next one; it is on a boundary exactly when nothing trails.
-/

namespace Framing

universe u

/-! ## Little-endian numbers -/

/-- The `width` little-endian bytes of `n`. -/
def leBytes : ℕ → ℕ → List UInt8
  | 0, _ => []
  | width + 1, n => UInt8.ofNat n :: leBytes width (n / 256)

/-- The number that little-endian bytes write. -/
def leValue : List UInt8 → ℕ
  | [] => 0
  | b :: bs => b.toNat + 256 * leValue bs

@[simp]
theorem length_leBytes (width n : ℕ) : (leBytes width n).length = width := by
  induction width generalizing n with
  | zero => rfl
  | succ width ih => rw [leBytes, List.length_cons, ih]

/-- A number is read back from its bytes. -/
theorem leValue_leBytes (width n : ℕ) (hn : n < 256 ^ width) :
    leValue (leBytes width n) = n := by
  induction width generalizing n with
  | zero =>
      obtain rfl : n = 0 := by simpa using hn
      rfl
  | succ width ih =>
      have hhigh : n / 256 < 256 ^ width := by
        refine Nat.div_lt_of_lt_mul ?_
        rwa [pow_succ, mul_comm] at hn
      rw [leBytes, leValue, ih (n / 256) hhigh, UInt8.toNat_ofNat']
      exact Nat.mod_add_div n 256

/-! ## Cuts -/

variable {β : Type u}

/-- How many frames lie wholly within the first `k` bytes. -/
def whole : List (List β) → ℕ → ℕ
  | [], _ => 0
  | f :: frames, k => if f.length ≤ k then whole frames (k - f.length) + 1 else 0

/-- How many of the first `k` bytes lie after the last frame that is wholly within them. -/
def trailing : List (List β) → ℕ → ℕ
  | [], _ => 0
  | f :: frames, k => if f.length ≤ k then trailing frames (k - f.length) else k

/-- The cut after `k` bytes separates two frames. -/
def OnBoundary (frames : List (List β)) (k : ℕ) : Prop :=
  ∃ j, k = ((frames.take j).flatten).length

theorem trailing_zero (frames : List (List β)) : trailing frames 0 = 0 := by
  induction frames with
  | nil => rfl
  | cons f frames ih =>
      by_cases hf : f.length ≤ 0
      · rw [trailing, if_pos hf, Nat.zero_sub, ih]
      · rw [trailing, if_neg hf]

theorem onBoundary_cons_of_le {f : List β} {frames : List (List β)} {k : ℕ}
    (hk : f.length ≤ k) (h : OnBoundary frames (k - f.length)) : OnBoundary (f :: frames) k := by
  obtain ⟨j, hj⟩ := h
  refine ⟨j + 1, ?_⟩
  rw [List.take_succ_cons, List.flatten_cons, List.length_append, ← hj]
  omega

/-- A cut within the stream is on a boundary exactly when no byte trails. -/
theorem onBoundary_iff (frames : List (List β)) (k : ℕ) (hk : k ≤ frames.flatten.length) :
    OnBoundary frames k ↔ trailing frames k = 0 := by
  constructor
  · rintro ⟨j, rfl⟩
    clear hk
    induction frames generalizing j with
    | nil => rfl
    | cons f frames ih =>
        cases j with
        | zero => exact trailing_zero (f :: frames)
        | succ j =>
            rw [List.take_succ_cons, List.flatten_cons, List.length_append, trailing,
              if_pos (Nat.le_add_right _ _), Nat.add_sub_cancel_left]
            exact ih j
  · intro htrail
    induction frames generalizing k with
    | nil =>
        obtain rfl : k = 0 := by simpa using hk
        exact ⟨0, rfl⟩
    | cons f frames ih =>
        rw [List.flatten_cons, List.length_append] at hk
        by_cases hf : f.length ≤ k
        · rw [trailing, if_pos hf] at htrail
          exact onBoundary_cons_of_le hf (ih (k - f.length) (by omega) htrail)
        · rw [trailing, if_neg hf] at htrail
          exact ⟨0, htrail⟩

/-- The last cut keeps every frame. -/
theorem whole_flatten (frames : List (List β)) :
    whole frames frames.flatten.length = frames.length := by
  induction frames with
  | nil => rfl
  | cons f frames ih =>
      rw [List.flatten_cons, List.length_append, whole, if_pos (Nat.le_add_right _ _),
        Nat.add_sub_cancel_left, ih, List.length_cons]

end Framing
