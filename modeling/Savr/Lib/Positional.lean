import Mathlib.Data.List.Lex
import Mathlib.Tactic

/-!
# Positional texts and positional numbers

Two ways to put a sequence of fields into one value, and the order they give it.

A *number* whose digits count blocks of different sizes — the days of years and months, the
nanoseconds of seconds — is compared digit by digit.

A *text* of fields of fixed widths is compared field by field.  A fraction may be printed
without its trailing zeros, if what follows it is smaller than every digit.

## Main results

* `before_add_lt_iff` — a position in a block, counted from the first block on.
* `append_lt_append_iff`, `digits_append_lt_iff` — texts with a first field of a fixed width.
* `fraction_lt` — fractions that are printed with as many digits as they need.
-/

namespace Positional

universe u v

/-! ## Numbers -/

/-- The total size of the blocks before this one. -/
def before (size : ℕ → ℕ) : ℕ → ℕ
  | 0 => 0
  | n + 1 => before size n + size n

variable {size : ℕ → ℕ} {a b i j r : ℕ}

theorem before_mono : Monotone (before size) :=
  monotone_nat_of_le_succ fun _ => Nat.le_add_right _ _

/-- **Positions in blocks** are compared by their blocks first. -/
theorem before_add_lt_iff (hi : i < size a) (hj : j < size b) :
    before size a + i < before size b + j ↔ a < b ∨ a = b ∧ i < j := by
  have hstep : ∀ {a b : ℕ}, a < b → before size a + size a ≤ before size b := fun h =>
    before_mono (Nat.succ_le_of_lt h)
  rcases Nat.lt_trichotomy a b with h | rfl | h
  · have hle := hstep h
    omega
  · omega
  · have hle := hstep h
    omega

/-- Blocks of one size. -/
theorem mul_add_lt_iff (hi : i < r) (hj : j < r) :
    a * r + i < b * r + j ↔ a < b ∨ a = b ∧ i < j := by
  have hconst : ∀ n, before (fun _ => r) n = n * r := by
    intro n
    induction n with
    | zero => rw [before, Nat.zero_mul]
    | succ n ih => rw [before, ih, Nat.succ_mul]
  rw [← hconst, ← hconst]
  exact before_add_lt_iff hi hj

/-! ## Texts -/

section Texts

variable {α : Type u} {β : Type v} [LinearOrder α] [LinearOrder β] {u v x y : List α}

/-- What comes first decides, where it has one length. -/
theorem append_lt_append_iff (h : u.length = v.length) :
    u ++ x < v ++ y ↔ u < v ∨ u = v ∧ x < y := by
  induction u generalizing v with
  | nil =>
      obtain rfl := List.length_eq_zero_iff.mp h.symm
      simp
  | cons a u ih =>
      cases v with
      | nil => cases h
      | cons b v =>
          have hlength : u.length = v.length := Nat.succ.inj h
          simp only [List.cons_append, List.cons_lt_cons_iff, ih hlength, List.cons.injEq]
          tauto

/-- A strictly monotone change of letters keeps the lexicographic order. -/
theorem map_lt_map_iff {f : α → β} (hf : StrictMono f) : u.map f < v.map f ↔ u < v := by
  induction u generalizing v with
  | nil => cases v <;> simp
  | cons a u ih =>
      cases v with
      | nil => simp
      | cons b v =>
          simp only [List.map_cons, List.cons_lt_cons_iff, ih, hf.lt_iff_lt, hf.injective.eq_iff]

end Texts

section Digits

variable {α : Type u} (base : ℕ) (digit : ℕ → α)

/-- The last `width` digits of a number. -/
def digits : ℕ → ℕ → List α
  | 0, _ => []
  | width + 1, n => digits width (n / base) ++ [digit (n % base)]

variable {base digit} {w k l m n N : ℕ} {c : α} {x y rest : List α}

@[simp]
theorem length_digits (w n : ℕ) : (digits base digit w n).length = w := by
  induction w generalizing n with
  | zero => rfl
  | succ w ih => rw [digits, List.length_append, ih, List.length_singleton]

/-- The digits in front and the digits behind. -/
theorem digits_add (w u n : ℕ) : digits base digit (w + u) n =
    digits base digit w (n / base ^ u) ++ digits base digit u (n % base ^ u) := by
  induction u generalizing n with
  | zero => simp [digits]
  | succ u ih =>
      have hquot : n / base / base ^ u = n / base ^ (u + 1) := by
        rw [Nat.div_div_eq_div_mul, pow_succ']
      have hhigh : n / base % base ^ u = n % base ^ (u + 1) / base := by
        rw [pow_succ', Nat.mod_mul_right_div_self]
      have hlow : n % base = n % base ^ (u + 1) % base := by
        rw [pow_succ', Nat.mod_mul_right_mod]
      rw [← Nat.add_assoc, digits, ih, digits, hquot, hhigh, ← hlow, List.append_assoc]

variable (digit) in
/-- A number has a first digit. -/
theorem exists_digits_succ (hbase : 0 < base) (w n : ℕ) :
    ∃ d < base, ∃ rest, digits base digit (w + 1) n = digit d :: rest := by
  induction w generalizing n with
  | zero => exact ⟨n % base, Nat.mod_lt n hbase, [], rfl⟩
  | succ w ih =>
      obtain ⟨d, hd, rest, heq⟩ := ih (n / base)
      exact ⟨d, hd, rest ++ [digit (n % base)], by rw [digits, heq, List.cons_append]⟩

variable [LinearOrder α]

/-- Numbers of one width are in the order of their digits. -/
theorem digits_lt_iff (mono : StrictMonoOn digit (Set.Iio base)) (hbase : 0 < base)
    (hm : m < base ^ w) (hn : n < base ^ w) :
    digits base digit w m < digits base digit w n ↔ m < n := by
  induction w generalizing m n with
  | zero =>
      rw [pow_zero, Nat.lt_one_iff] at hm hn
      simp [digits, hm, hn]
  | succ w ih =>
      have hhigh : ∀ {k}, k < base ^ (w + 1) → k / base < base ^ w := by
        intro k hk
        rw [pow_succ'] at hk
        exact Nat.div_lt_of_lt_mul hk
      have hinj : digits base digit w (m / base) = digits base digit w (n / base) →
          m / base = n / base := by
        intro heq
        rcases Nat.lt_trichotomy (m / base) (n / base) with h | h | h
        · exact absurd heq ((ih (hhigh hm) (hhigh hn)).mpr h).ne
        · exact h
        · exact absurd heq ((ih (hhigh hn) (hhigh hm)).mpr h).ne'
      have hlow : digit (m % base) < digit (n % base) ↔ m % base < n % base :=
        mono.lt_iff_lt (Nat.mod_lt m hbase) (Nat.mod_lt n hbase)
      rw [digits, digits, append_lt_append_iff (by simp), ih (hhigh hm) (hhigh hn),
        List.cons_lt_cons_iff, hlow]
      simp only [List.not_lt_nil, and_false, or_false]
      have hdigits := mul_add_lt_iff (a := m / base) (b := n / base) (Nat.mod_lt m hbase)
        (Nat.mod_lt n hbase)
      rw [Nat.div_add_mod', Nat.div_add_mod'] at hdigits
      rw [hdigits]
      exact or_congr_right (and_congr_left fun _ => ⟨hinj, congrArg _⟩)

theorem digits_inj (mono : StrictMonoOn digit (Set.Iio base)) (hbase : 0 < base)
    (hm : m < base ^ w) (hn : n < base ^ w)
    (heq : digits base digit w m = digits base digit w n) : m = n := by
  rcases Nat.lt_trichotomy m n with h | h | h
  · exact absurd heq ((digits_lt_iff mono hbase hm hn).mpr h).ne
  · exact h
  · exact absurd heq ((digits_lt_iff mono hbase hn hm).mpr h).ne'

/-- **A number in front** is compared first. -/
theorem digits_append_lt_iff (mono : StrictMonoOn digit (Set.Iio base)) (hbase : 0 < base)
    (hm : m < base ^ w) (hn : n < base ^ w) :
    digits base digit w m ++ x < digits base digit w n ++ y ↔ m < n ∨ m = n ∧ x < y := by
  rw [append_lt_append_iff (by simp), digits_lt_iff mono hbase hm hn]
  exact or_congr_right (and_congr_left fun _ =>
    ⟨digits_inj mono hbase hm hn, congrArg _⟩)

/-- **Fractions without their trailing zeros.**  Two fractions of `N` digits are printed
with so many digits that only zeros are left out, and a text follows that is smaller than
every digit: the smaller fraction comes first. -/
theorem fraction_lt (mono : StrictMonoOn digit (Set.Iio base)) (hbase : 0 < base)
    (hc : ∀ d < base, c < digit d) (hk : k ≤ N) (hl : l ≤ N)
    (hkm : base ^ (N - k) ∣ m) (hln : base ^ (N - l) ∣ n) (hn : n < base ^ N) (hmn : m < n) :
    digits base digit k (m / base ^ (N - k)) ++ c :: rest <
      digits base digit l (n / base ^ (N - l)) ++ c :: rest := by
  have hbound : ∀ {j i : ℕ}, i ≤ N → j < base ^ N → j / base ^ (N - i) < base ^ i := by
    intro j i hi hj
    refine Nat.div_lt_of_lt_mul ?_
    rwa [← pow_add, Nat.sub_add_cancel hi]
  rcases Nat.le_total k l with hle | hle
  · obtain ⟨u, rfl⟩ := Nat.exists_eq_add_of_le hle
    have hquot : n / base ^ (N - (k + u)) / base ^ u = n / base ^ (N - k) := by
      rw [Nat.div_div_eq_div_mul, ← pow_add]
      congr 2
      omega
    rw [digits_add, hquot, List.append_assoc,
      digits_append_lt_iff mono hbase (hbound hk (hmn.trans hn)) (hbound hk hn)]
    rcases Nat.lt_or_ge (m / base ^ (N - k)) (n / base ^ (N - k)) with hlt | hge
    · exact .inl hlt
    · -- the first digits agree, so there is another one, and it is compared with `c`
      refine .inr ⟨le_antisymm (Nat.div_le_div_right hmn.le) hge, ?_⟩
      cases u with
      | zero =>
          obtain ⟨a, rfl⟩ := hkm
          obtain ⟨b, rfl⟩ := hln
          have hpos : 0 < base ^ (N - k) := Nat.pow_pos hbase
          rw [Nat.add_zero] at hmn hge
          rw [Nat.mul_div_cancel_left _ hpos, Nat.mul_div_cancel_left _ hpos] at hge
          exact absurd (Nat.mul_le_mul_left _ hge) (Nat.not_le_of_gt hmn)
      | succ u =>
          obtain ⟨d, hd, more, heq⟩ := exists_digits_succ digit hbase u
            (n / base ^ (N - (k + (u + 1))) % base ^ (u + 1))
          rw [heq, List.cons_append, List.cons_lt_cons_iff]
          exact .inl (hc d hd)
  · obtain ⟨u, rfl⟩ := Nat.exists_eq_add_of_le hle
    have hquot : m / base ^ (N - (l + u)) / base ^ u = m / base ^ (N - l) := by
      rw [Nat.div_div_eq_div_mul, ← pow_add]
      congr 2
      omega
    rw [digits_add, hquot, List.append_assoc,
      digits_append_lt_iff mono hbase (hbound hl (hmn.trans hn)) (hbound hl hn)]
    refine .inl ?_
    obtain ⟨b, rfl⟩ := hln
    rw [Nat.mul_div_cancel_left _ (Nat.pow_pos hbase)]
    exact Nat.div_lt_of_lt_mul hmn

end Digits

end Positional
