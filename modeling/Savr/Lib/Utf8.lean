import Mathlib.Data.List.Basic
import Mathlib.Tactic

/-!
# UTF-8 texts, byte by byte

What a program that walks over the bytes of a text relies on: a character below 128 is one byte,
the bytes of any other character are 128 or more, and only the first of them starts a character.

## Main results

* `encodeChar_of_ascii`, `le_of_mem_encodeChar` — the bytes of a character.
* `decode_encodeChar`, `decode_eq_none` — a character is decoded from its bytes, and nothing is
  decoded from the middle of one.
-/

namespace Utf8

/-- The bytes of a text. -/
def encode (text : List Char) : List UInt8 := text.flatMap String.utf8EncodeChar

/-- The text of these bytes, if there is one. -/
def decode (bytes : List UInt8) : Option (List Char) :=
  bytes.toByteArray.utf8Decode?.map Array.toList

variable {c : Char} {b : UInt8} {rest : List UInt8}

theorem forall_byte {P : UInt8 → Prop} (h : ∀ v : BitVec 8, P (UInt8.ofBitVec v)) : P b :=
  h b.toBitVec

@[simp]
theorem encode_nil : encode [] = [] := rfl

@[simp]
theorem encode_cons (c : Char) (text : List Char) :
    encode (c :: text) = String.utf8EncodeChar c ++ encode text := rfl

theorem encodeChar_of_ascii (h : c.toNat < 128) :
    String.utf8EncodeChar c = [UInt8.ofNat c.toNat] := by
  have hsize : c.utf8Size = 1 := by
    rw [Char.utf8Size_eq_one_iff, UInt32.le_iff_toNat_le]
    exact Nat.le_of_lt_succ h
  rw [String.utf8EncodeChar_eq_singleton hsize]
  rfl

/-- The first byte says how many bytes the character has. -/
theorem first_byte (h : String.utf8EncodeChar c = b :: rest) :
    ∃ hfirst : b.IsUTF8FirstByte, b.utf8ByteSize hfirst = c.utf8Size := by
  have hbytes : [c].utf8Encode = (b :: rest).toByteArray := by
    rw [List.utf8Encode_singleton, h]
  have hsome : ((b :: rest).toByteArray.utf8DecodeChar? 0).isSome := by
    rw [← hbytes, List.utf8DecodeChar?_utf8Encode_singleton]
    rfl
  have hchar : (b :: rest).toByteArray.utf8DecodeChar 0 hsome = c := by
    simp only [← hbytes, List.utf8DecodeChar_utf8Encode_cons]
  have hsize := ByteArray.utf8Size_utf8DecodeChar (h := hsome)
  simp only [hchar, List.getElem_toByteArray, List.getElem_cons_zero] at hsize
  exact ⟨_, hsize.symm⟩

theorem two_le_utf8Size (h : 128 ≤ c.toNat) : 2 ≤ c.utf8Size := by
  have hne : c.utf8Size ≠ 1 := by
    rw [Ne, Char.utf8Size_eq_one_iff, UInt32.le_iff_toNat_le]
    exact Nat.not_le.mpr h
  have hpos := c.utf8Size_pos
  omega

/-- The bytes of a character outside ASCII: only the first one starts a character. -/
theorem encodeChar_of_not_ascii (h : 128 ≤ c.toNat) :
    ∃ b b' rest, String.utf8EncodeChar c = b :: b' :: rest ∧ 128 ≤ b ∧
      ∀ d ∈ b' :: rest, ¬ d.IsUTF8FirstByte := by
  have hsize := two_le_utf8Size h
  rw [← String.length_utf8EncodeChar] at hsize
  obtain ⟨b, tail, hbytes⟩ := List.exists_cons_of_length_pos (Nat.lt_of_lt_of_le Nat.two_pos hsize)
  obtain ⟨b', rest, rfl⟩ : ∃ b' rest, tail = b' :: rest := by
    refine List.exists_cons_of_length_pos ?_
    rw [hbytes, List.length_cons] at hsize
    omega
  refine ⟨b, b', rest, hbytes, ?_, ?_⟩
  · obtain ⟨hfirst, hbyte⟩ := first_byte hbytes
    have hlow : ∀ hfirst : b.IsUTF8FirstByte, b < 128 → b.utf8ByteSize hfirst = 1 :=
      forall_byte (b := b) (P := fun b => ∀ hfirst : b.IsUTF8FirstByte, b < 128 →
        b.utf8ByteSize hfirst = 1) (by decide +kernel)
    by_contra hlt
    have hone := hlow hfirst (UInt8.not_le.mp hlt)
    have htwo := two_le_utf8Size h
    omega
  · intro d hd hfirst
    obtain ⟨i, hi, rfl⟩ := List.getElem_of_mem hd
    have hlen : i + 1 < (String.utf8EncodeChar c).length := by
      rw [hbytes]
      exact Nat.succ_lt_succ hi
    have hget : (String.utf8EncodeChar c)[i + 1] = (b' :: rest)[i] := by
      simp only [hbytes, List.getElem_cons_succ]
    rw [← hget, UInt8.isUTF8FirstByte_getElem_utf8EncodeChar] at hfirst
    omega

theorem le_of_not_first (h : ¬ b.IsUTF8FirstByte) : 128 ≤ b := by
  have hall : ¬ b.IsUTF8FirstByte → 128 ≤ b :=
    forall_byte (b := b) (P := fun b => ¬ b.IsUTF8FirstByte → 128 ≤ b) (by decide +kernel)
  exact hall h

theorem le_of_mem_encodeChar (h : 128 ≤ c.toNat) : ∀ b ∈ String.utf8EncodeChar c, 128 ≤ b := by
  obtain ⟨b, b', rest, hbytes, hb, hrest⟩ := encodeChar_of_not_ascii h
  rw [hbytes]
  intro d hd
  rcases List.mem_cons.mp hd with rfl | hd
  · exact hb
  · exact le_of_not_first (hrest d hd)

theorem decode_encodeChar (c : Char) : decode (String.utf8EncodeChar c) = some [c] := by
  rw [decode, ← List.utf8Encode_singleton, List.utf8Decode?_utf8Encode]
  rfl

/-- Nothing is decoded from the middle of a character. -/
theorem decode_eq_none (h : ¬ b.IsUTF8FirstByte) : decode (b :: rest) = none := by
  rw [decode, Option.map_eq_none_iff, ← Option.not_isSome_iff_eq_none,
    ByteArray.isSome_utf8Decode?_iff]
  rintro ⟨text, htext⟩
  cases text with
  | nil =>
      have hsize := congrArg ByteArray.size htext
      simp at hsize
  | cons c text =>
      refine h ?_
      rw [List.utf8Encode_cons, List.utf8Encode_singleton] at htext
      have hfirst := ByteArray.isUTF8FirstByte_getElem_zero_utf8EncodeChar_append (c := c)
        (b := text.utf8Encode)
      simp only [← htext, List.getElem_toByteArray, List.getElem_cons_zero] at hfirst
      exact hfirst

end Utf8
