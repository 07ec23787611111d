import Mathlib.Data.List.Basic
import Mathlib.Tactic

/-!
# Prefix codes

A code writes a value as a list of numbers such that a value can be read off the
front of any list that starts with it.  Codes compose: what is written one after
the other can be read back one after the other, so the code of a record is the
concatenation of the codes of its fields, and every code is injective.
-/

namespace PrefixCode

universe u v

/-- A code whose words can be read off the front of a list. -/
structure Code (α : Type u) where
  encode : α → List ℕ
  /-- The rest of the list after a word determines the word, and the word the rest. -/
  split : ∀ {a b : α} {r s : List ℕ}, encode a ++ r = encode b ++ s → a = b ∧ r = s

variable {α : Type u} {β : Type v}

theorem Code.injective (c : Code α) : Function.Injective c.encode := by
  intro a b h
  refine (c.split (r := []) (s := []) ?_).1
  rw [h]

/-- A code for whatever embeds into a coded type. -/
def Code.comap (c : Code β) (f : α → β) (hf : Function.Injective f) : Code α where
  encode a := c.encode (f a)
  split h := ⟨hf (c.split h).1, (c.split h).2⟩

/-- A number is its own code. -/
def nat : Code ℕ where
  encode n := [n]
  split h := by simpa using h

/-- The codes of both, one after the other. -/
def pair (c : Code α) (d : Code β) : Code (α × β) where
  encode p := c.encode p.1 ++ d.encode p.2
  split {p q r s} h := by
    rw [List.append_assoc, List.append_assoc] at h
    obtain ⟨hfst, hrest⟩ := c.split h
    obtain ⟨hsnd, hrs⟩ := d.split hrest
    exact ⟨Prod.ext hfst hsnd, hrs⟩

/-- A list is coded by its length, then its elements. The length in front says where the code
ends. -/
def list (c : Code α) : Code (List α) where
  encode l := l.length :: l.flatMap c.encode
  split {l l' r s} h := by
    rw [List.cons_append, List.cons_append, List.cons.injEq] at h
    obtain ⟨hlen, hrest⟩ := h
    induction l generalizing l' with
    | nil =>
        obtain rfl : l' = [] := List.length_eq_zero_iff.mp hlen.symm
        exact ⟨rfl, by simpa using hrest⟩
    | cons a l ih =>
        cases l' with
        | nil => cases hlen
        | cons b l' =>
            rw [List.flatMap_cons, List.flatMap_cons, List.append_assoc, List.append_assoc] at hrest
            obtain ⟨rfl, htail⟩ := c.split hrest
            obtain ⟨rfl, hrs⟩ := ih (by simpa using hlen) htail
            exact ⟨rfl, hrs⟩

/-- An optional value is coded as a list of at most one. -/
def option (c : Code α) : Code (Option α) :=
  (list c).comap Option.toList fun a b h => by
    cases a <;> cases b <;> simp_all

/-- The sign of an integer is told by which of two numbers is zero. -/
def int : Code ℤ :=
  (pair nat nat).comap (fun z => (z.toNat, (-z).toNat)) fun a b h => by
    simp only [Prod.mk.injEq] at h
    omega

/-- Characters by their code points. -/
def char : Code Char :=
  nat.comap Char.toNat fun _ _ h => Char.toNat_inj.mp h

/-- A text is the list of its characters. -/
def string : Code String :=
  (list char).comap String.toList fun _ _ h => String.toList_injective h

/-- Bytes by their values. -/
def byte : Code UInt8 :=
  nat.comap UInt8.toNat fun _ _ h => UInt8.toNat_inj.mp h

end PrefixCode
