import Mathlib.Data.List.Forall2
import Mathlib.Tactic

/-!
# Sequence patterns

A pattern for a sequence is a list of items: a test that one element has to pass, or a gap
that any run of passing elements fills.  A pattern of exact elements cuts a fixed start off
(`fits_exactly_append`), a pattern without gaps is met element by element
(`fits_iff_forall₂`), and a gap can always take one element more (`fits_insert`).
-/

namespace Wildcard

universe u

variable {α : Type u}

/-- One item of a pattern: one element that passes the test, or any run of such elements. -/
inductive Item (α : Type u)
  | one (test : α → Bool)
  | many (test : α → Bool)

/-- The sequence meets the pattern. -/
def fits : List (Item α) → List α → Bool
  | [], s => s.isEmpty
  | .one _ :: _, [] => false
  | .one test :: items, a :: s => test a && fits items s
  | .many test :: items, s =>
      (List.range (s.length + 1)).any fun n => (s.take n).all test && fits items (s.drop n)

/-- The item is met by this element only. -/
def exactly [DecidableEq α] (a : α) : Item α :=
  .one fun b => b = a

variable {items : List (Item α)} {s t : List α} {a : α} {test : α → Bool}

/-- A star takes some of the beginning, and the rest fits what is behind it. -/
theorem fits_many : fits (.many test :: items) s ↔
    ∃ l r, s = l ++ r ∧ (∀ a ∈ l, test a) ∧ fits items r := by
  rw [fits, List.any_eq_true]
  constructor
  · rintro ⟨n, -, h⟩
    rw [Bool.and_eq_true, List.all_eq_true] at h
    exact ⟨s.take n, s.drop n, (List.take_append_drop n s).symm, h⟩
  · rintro ⟨l, r, rfl, hl, hr⟩
    refine ⟨l.length, ?_, ?_⟩
    · rw [List.mem_range, List.length_append]
      omega
    · rw [List.take_left, List.drop_left, Bool.and_eq_true, List.all_eq_true]
      exact ⟨hl, hr⟩

/-- A pattern that starts with exact elements is met by what starts with these elements and
goes on as the rest of the pattern asks. -/
theorem fits_exactly_append [DecidableEq α] (l : List α) :
    fits (l.map exactly ++ items) s ↔ ∃ r, s = l ++ r ∧ fits items r := by
  induction l generalizing s with
  | nil => simp
  | cons a l ih =>
      cases s with
      | nil => simp [exactly, fits]
      | cons b s =>
          rw [List.map_cons, List.cons_append, exactly, fits, Bool.and_eq_true,
            decide_eq_true_eq, ih]
          constructor
          · rintro ⟨rfl, r, rfl, hfits⟩
            exact ⟨r, rfl, hfits⟩
          · rintro ⟨r, heq, hfits⟩
            obtain ⟨rfl, rfl⟩ := List.cons.inj heq
            exact ⟨rfl, r, rfl, hfits⟩

/-- The item asks for one element. -/
def Item.isOne : Item α → Bool
  | .one _ => true
  | .many _ => false

/-- The item is a test that this element passes. -/
def Item.Takes (item : Item α) (a : α) : Prop :=
  ∃ test, item = .one test ∧ test a

/-- Without gaps, a pattern is met element by element. -/
theorem fits_iff_forall₂ (h : ∀ item ∈ items, item.isOne) :
    fits items s ↔ List.Forall₂ Item.Takes items s := by
  induction items generalizing s with
  | nil => cases s <;> simp [fits]
  | cons item items ih =>
      obtain ⟨hitem, hitems⟩ := List.forall_mem_cons.mp h
      cases item with
      | many test => cases hitem
      | one test =>
          cases s with
          | nil => simp [fits]
          | cons a s => simp [fits, ih hitems, Item.Takes]

/-- A gap can take one element more. -/
theorem fits_insert (hmany : .many test ∈ items) (h : fits items s) (ha : test a) :
    ∃ l r, s = l ++ r ∧ fits items (l ++ a :: r) := by
  induction items generalizing s with
  | nil => exact absurd hmany List.not_mem_nil
  | cons item items ih =>
      rcases List.mem_cons.mp hmany with rfl | hrest
      · obtain ⟨l, r, rfl, hl, hr⟩ := fits_many.mp h
        refine ⟨l, r, rfl, fits_many.mpr ⟨l ++ [a], r, by simp, ?_, hr⟩⟩
        intro b hb
        rcases List.mem_append.mp hb with hb | hb
        · exact hl b hb
        · rwa [List.mem_singleton.mp hb]
      · cases item with
        | many other =>
            obtain ⟨l, r, rfl, hl, hr⟩ := fits_many.mp h
            obtain ⟨l', r', rfl, hfits⟩ := ih hrest hr
            refine ⟨l ++ l', r', (List.append_assoc l l' r').symm, ?_⟩
            exact fits_many.mpr ⟨l, l' ++ a :: r', List.append_assoc l l' _, hl, hfits⟩
        | one other =>
            cases s with
            | nil => simp [fits] at h
            | cons b s =>
                rw [fits, Bool.and_eq_true] at h
                obtain ⟨l, r, rfl, hl⟩ := ih hrest h.2
                refine ⟨b :: l, r, rfl, ?_⟩
                rw [List.cons_append, fits, Bool.and_eq_true]
                exact ⟨h.1, hl⟩

/-- The element that a test takes may be any other that passes the test. -/
theorem fits_replace (hone : .one test ∈ items) (h : fits items s) :
    ∃ l b r, s = l ++ b :: r ∧ ∀ a, test a → fits items (l ++ a :: r) := by
  induction items generalizing s with
  | nil => exact absurd hone List.not_mem_nil
  | cons item items ih =>
      cases item with
      | many other =>
          have hrest : .one test ∈ items := by simpa using hone
          obtain ⟨l, r, rfl, hl, hr⟩ := fits_many.mp h
          obtain ⟨l', b, r', rfl, hfits⟩ := ih hrest hr
          refine ⟨l ++ l', b, r', (List.append_assoc l l' _).symm, fun a ha => ?_⟩
          exact fits_many.mpr ⟨l, l' ++ a :: r', List.append_assoc l l' _, hl, hfits a ha⟩
      | one other =>
          cases s with
          | nil => simp [fits] at h
          | cons b s =>
              rw [fits, Bool.and_eq_true] at h
              rcases List.mem_cons.mp hone with heq | hrest
              · obtain rfl := Item.one.inj heq
                refine ⟨[], b, s, rfl, fun a ha => ?_⟩
                rw [List.nil_append, fits, Bool.and_eq_true]
                exact ⟨ha, h.2⟩
              · obtain ⟨l, c, r, rfl, hfits⟩ := ih hrest h.2
                refine ⟨b :: l, c, r, rfl, fun a ha => ?_⟩
                rw [List.cons_append, fits, Bool.and_eq_true]
                exact ⟨h.1, hfits a ha⟩

/-- Where only one sequence of good elements meets a pattern without gaps, only one good
element passes each test. -/
theorem takes_only {good : α → Prop} (hone : ∀ item ∈ items, item.isOne)
    (hgood : ∀ a ∈ s, good a) (hs : fits items s)
    (honly : ∀ t, (∀ a ∈ t, good a) → fits items t → t = s) :
    List.Forall₂ (fun item a => item.Takes a ∧ ∀ b, good b → item.Takes b → b = a) items s := by
  induction items generalizing s with
  | nil =>
      obtain rfl : s = [] := by simpa [fits] using hs
      exact .nil
  | cons item items ih =>
      obtain ⟨hitem, hitems⟩ := List.forall_mem_cons.mp hone
      rw [fits_iff_forall₂ hone] at hs
      cases hs with
      | @cons _ a _ s ha hs =>
          obtain ⟨hgooda, hgoods⟩ := List.forall_mem_cons.mp hgood
          have hfits : ∀ b t, item.Takes b → fits items t → fits (item :: items) (b :: t) := by
            intro b t hb ht
            exact (fits_iff_forall₂ hone).mpr (.cons hb ((fits_iff_forall₂ hitems).mp ht))
          have hrest := (fits_iff_forall₂ hitems).mpr hs
          refine .cons ⟨ha, fun b hb htakes => ?_⟩ (ih hitems hgoods hrest fun t ht htfits => ?_)
          · have := honly (b :: s) (List.forall_mem_cons.mpr ⟨hb, hgoods⟩) (hfits b s htakes hrest)
            exact (List.cons.inj this).1
          · have := honly (a :: t) (List.forall_mem_cons.mpr ⟨hgooda, ht⟩) (hfits a t ha htfits)
            exact (List.cons.inj this).2

end Wildcard
