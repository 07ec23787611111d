import Mathlib.Data.Char
import Savr.Lib.Calendar
import Savr.Lib.Utf8

/-!
# Timestamps as text

Both databases keep their times as the text that chrono's `to_rfc3339` prints of a
`DateTime<Utc>`, and compare them in SQL as they are: byte by byte.

The texts do not have one length: a fraction of a second is printed with 3, 6 or 9 digits,
or not at all.  What follows it, the `+` of the offset, is smaller than every digit and than
the point, so the comparison still is one of times.

## Main results

* `UtcTime.text_lt_iff` — the order of the texts.

## Design notes

The format is documented behaviour of chrono, which is not part of the repository.  Years run
from 0 to 9999, and a leap second (nanoseconds from 10⁹ on) is no `UtcTime`.
-/

namespace Savr

open Positional Calendar

/-- A `DateTime<Utc>`: a date, and the second and the nanosecond of its day. The bounds are
those within which the text has its usual form. -/
structure UtcTime where
  date : Date
  secs : ℕ
  nanos : ℕ
  year_lt : date.year < 10000
  secs_lt : secs < 86400
  nanos_lt : nanos < 10 ^ 9
  deriving DecidableEq

/-- Decimal digits, padded with zeros. -/
def padded (width n : ℕ) : List Char := digits 10 Nat.digitChar width n

namespace UtcTime

/-- The nanoseconds since the first day of the year 0 began. -/
def instant (t : UtcTime) : ℕ := (t.date.number * 86400 + t.secs) * 10 ^ 9 + t.nanos

/-- The offset of UTC. -/
def zone : List Char := "+00:00".toList

/-- The fraction of the second, with no more digits than its groups of three need. -/
def fraction (nanos : ℕ) : List Char :=
  if nanos = 0 then []
  else if nanos % 10 ^ 6 = 0 then '.' :: padded 3 (nanos / 10 ^ 6)
  else if nanos % 10 ^ 3 = 0 then '.' :: padded 6 (nanos / 10 ^ 3)
  else '.' :: padded 9 nanos

/-- `to_rfc3339`. -/
def rfc3339Chars (t : UtcTime) : List Char :=
  padded 4 t.date.year ++ '-' :: (padded 2 t.date.month ++ '-' :: (padded 2 t.date.day ++ 'T' ::
    (padded 2 (t.secs / 3600) ++ ':' :: (padded 2 (t.secs / 60 % 60) ++ ':' ::
      (padded 2 (t.secs % 60) ++ (fraction t.nanos ++ zone))))))

/-- `DateTime::to_rfc3339`, in UTC. -/
def toRfc3339 (t : UtcTime) : String := String.ofList t.rfc3339Chars

end UtcTime

/-- The bytes of a text, as `memcmp` sees them. -/
def bytesOf (text : String) : List ℕ := (Utf8.encode text.toList).map UInt8.toNat

/-- `a < b` in SQL, for text. -/
def textLt (a b : String) : Bool := bytesOf a < bytesOf b

/-! ## The order of the texts -/

section Order

/-- An ASCII text is stored one byte for each character. -/
theorem bytesOf_of_ascii {text : List Char} (h : ∀ c ∈ text, c.toNat < 128) :
    bytesOf (String.ofList text) = text.map Char.toNat := by
  rw [bytesOf, String.toList_ofList]
  induction text with
  | nil => rfl
  | cons c text ih =>
      obtain ⟨hc, htext⟩ := List.forall_mem_cons.mp h
      rw [Utf8.encode_cons, Utf8.encodeChar_of_ascii hc, List.map_append, ih htext,
        List.map_singleton, List.map_cons, UInt8.toNat_ofNat', Nat.mod_eq_of_lt (by omega)]
      rfl

theorem toNat_strictMono : StrictMono Char.toNat := fun _ _ h => h

theorem digitChar_strictMonoOn : StrictMonoOn Nat.digitChar (Set.Iio 10) := by
  have hall : ∀ a < 10, ∀ b < 10, a < b → Nat.digitChar a < Nat.digitChar b := by decide
  exact fun a ha b hb hab => hall a ha b hb hab

theorem plus_lt_digitChar : ∀ d < 10, '+' < Nat.digitChar d := by decide

/-- A padded number is ASCII. -/
theorem ascii_padded (width n : ℕ) : ∀ c ∈ padded width n, c.toNat < 128 := by
  induction width generalizing n with
  | zero => exact fun c hc => by cases hc
  | succ width ih =>
      intro c hc
      rw [padded, digits] at hc
      rcases List.mem_append.mp hc with hc | hc
      · exact ih _ c hc
      · obtain rfl := List.mem_singleton.mp hc
        have hall : ∀ d < 10, (Nat.digitChar d).toNat < 128 := by decide
        exact hall _ (Nat.mod_lt n (by decide))

theorem padded_append_lt_iff {width m n : ℕ} {x y : List Char} (hm : m < 10 ^ width)
    (hn : n < 10 ^ width) :
    padded width m ++ x < padded width n ++ y ↔ m < n ∨ m = n ∧ x < y :=
  digits_append_lt_iff digitChar_strictMonoOn (by decide) hm hn

namespace UtcTime

variable {a b t : UtcTime} {m n : ℕ}

/-- How many digits are printed, and that only zeros are left out. -/
theorem fraction_eq (hn : n ≠ 0) : ∃ k, k ≤ 9 ∧ 10 ^ (9 - k) ∣ n ∧
    fraction n = '.' :: padded k (n / 10 ^ (9 - k)) := by
  rw [fraction, if_neg hn]
  split_ifs with hsix hthree
  · exact ⟨3, by decide, Nat.dvd_of_mod_eq_zero hsix, rfl⟩
  · exact ⟨6, by decide, Nat.dvd_of_mod_eq_zero hthree, rfl⟩
  · exact ⟨9, le_rfl, one_dvd n, by rw [Nat.sub_self, pow_zero, Nat.div_one]⟩

/-- The later fraction has the greater text. -/
theorem fraction_lt_of_lt (hn : n < 10 ^ 9) (h : m < n) :
    fraction m ++ zone < fraction n ++ zone := by
  obtain ⟨l, hl, hln, heq⟩ := fraction_eq (Nat.ne_zero_of_lt h)
  rw [heq]
  rcases Nat.eq_zero_or_pos m with rfl | hm
  · -- the offset comes at once, and `+` is before the point
    exact List.cons_lt_cons_iff.mpr (.inl (by decide))
  · obtain ⟨k, hk, hkm, heq'⟩ := fraction_eq hm.ne'
    rw [heq', List.cons_append, List.cons_append, List.cons_lt_cons_iff]
    exact .inr ⟨rfl, fraction_lt digitChar_strictMonoOn (by decide) plus_lt_digitChar hk hl hkm
      hln hn h⟩

theorem fraction_lt_iff (hm : m < 10 ^ 9) (hn : n < 10 ^ 9) :
    fraction m ++ zone < fraction n ++ zone ↔ m < n := by
  refine ⟨fun h => ?_, fraction_lt_of_lt hn⟩
  rcases Nat.lt_trichotomy m n with hlt | rfl | hgt
  · exact hlt
  · exact absurd h (lt_irrefl _)
  · exact absurd (fraction_lt_of_lt hm hgt) h.asymm

theorem month_lt (t : UtcTime) : t.date.month < 10 ^ 2 := by
  have h := t.date.month_le
  omega

/-- A day of the month has two digits. -/
theorem day_lt (t : UtcTime) : t.date.day < 10 ^ 2 := by
  have hday := t.date.day_le
  have hmonth : ∀ y m, monthLength y m < 10 ^ 2 := by
    intro y m
    unfold monthLength
    split
    · split_ifs <;> decide
    all_goals decide
  exact hday.trans_lt (hmonth _ _)

/-- The texts are compared field by field. -/
theorem rfc3339Chars_lt_iff : a.rfc3339Chars < b.rfc3339Chars ↔
    a.date.year < b.date.year ∨ a.date.year = b.date.year ∧
    (a.date.month < b.date.month ∨ a.date.month = b.date.month ∧
    (a.date.day < b.date.day ∨ a.date.day = b.date.day ∧
    (a.secs / 3600 < b.secs / 3600 ∨ a.secs / 3600 = b.secs / 3600 ∧
    (a.secs / 60 % 60 < b.secs / 60 % 60 ∨ a.secs / 60 % 60 = b.secs / 60 % 60 ∧
    (a.secs % 60 < b.secs % 60 ∨ a.secs % 60 = b.secs % 60 ∧ a.nanos < b.nanos))))) := by
  have hhour : ∀ t : UtcTime, t.secs / 3600 < 10 ^ 2 := fun t => by
    have h := t.secs_lt
    omega
  have hsixty : ∀ n, n % 60 < 10 ^ 2 := fun n => by omega
  have hsep : ∀ {c : Char} {x y : List Char}, c :: x < c :: y ↔ x < y := by
    intro c x y
    simp
  rw [rfc3339Chars, rfc3339Chars, padded_append_lt_iff a.year_lt b.year_lt, hsep,
    padded_append_lt_iff a.month_lt b.month_lt, hsep,
    padded_append_lt_iff a.day_lt b.day_lt, hsep,
    padded_append_lt_iff (hhour a) (hhour b), hsep,
    padded_append_lt_iff (hsixty _) (hsixty _), hsep,
    padded_append_lt_iff (hsixty _) (hsixty _), fraction_lt_iff a.nanos_lt b.nanos_lt]

/-- And so are the times. -/
theorem instant_lt_iff : a.instant < b.instant ↔ a.rfc3339Chars < b.rfc3339Chars := by
  have hlt := Date.number_lt_iff (a := a.date) (b := b.date)
  have hgt := Date.number_lt_iff (a := b.date) (b := a.date)
  have ha := a.secs_lt
  have hb := b.secs_lt
  rw [instant, instant, mul_add_lt_iff a.nanos_lt b.nanos_lt, mul_add_lt_iff ha hb,
    rfc3339Chars_lt_iff]
  omega

/-- One text is the text of one time. -/
theorem text_eq_iff : a.toRfc3339 = b.toRfc3339 ↔ a.instant = b.instant := by
  have hlt := instant_lt_iff (a := a) (b := b)
  have hgt := instant_lt_iff (a := b) (b := a)
  rw [toRfc3339, toRfc3339, String.ofList_inj]
  constructor
  · intro heq
    exact Nat.le_antisymm (Nat.not_lt.mp fun h => (hgt.mp h).ne heq.symm)
      (Nat.not_lt.mp fun h => (hlt.mp h).ne heq)
  · intro heq
    exact le_antisymm (not_lt.mp (hgt.not.mp heq.symm.not_lt))
      (not_lt.mp (hlt.not.mp heq.not_lt))

/-- A printed time is ASCII, so that its bytes compare as its characters do. -/
theorem ascii_rfc3339Chars (t : UtcTime) : ∀ c ∈ t.rfc3339Chars, c.toNat < 128 := by
  have hfraction : ∀ n, ∀ c ∈ fraction n, c.toNat < 128 := by
    intro n
    unfold fraction
    split_ifs
    · exact fun c hc => by cases hc
    all_goals exact List.forall_mem_cons.mpr ⟨by decide, ascii_padded _ _⟩
  have hzone : ∀ c ∈ zone, c.toNat < 128 := by simp [zone]
  simp only [rfc3339Chars, List.forall_mem_append, List.forall_mem_cons]
  exact ⟨ascii_padded _ _, by decide, ascii_padded _ _, by decide, ascii_padded _ _, by decide,
    ascii_padded _ _, by decide, ascii_padded _ _, by decide, ascii_padded _ _, hfraction _, hzone⟩

/-- **The order of the texts is the order of the times.** -/
theorem text_lt_iff : textLt a.toRfc3339 b.toRfc3339 = true ↔ a.instant < b.instant := by
  rw [textLt, decide_eq_true_eq, toRfc3339, toRfc3339, bytesOf_of_ascii a.ascii_rfc3339Chars,
    bytesOf_of_ascii b.ascii_rfc3339Chars, map_lt_map_iff toNat_strictMono, instant_lt_iff]

end UtcTime

end Order

end Savr
