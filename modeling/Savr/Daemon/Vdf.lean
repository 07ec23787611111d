import Savr.Core.Types
import Savr.Lib.Utf8

/-!
# Valve's KeyValues files

`tokenize`, `parse`, `parse_pair` and `parse_obj` of `savr-daemon/src/detection/steam.rs`, which
read the files that describe a Steam library.

## Main results

* `lexBytes_encode` — the lexer, which walks over bytes, in terms of the characters of the text.
* `takesPair_iff_tokens`, `parseTokens_eq_some_iff` — what the parser takes from a token list.
* `lexes_writeEntries` — a tree that is written down is read as its tokens.

## Design notes

The position of the parser is the list of the tokens that are left; that each step leaves fewer
is part of its result, which is why the recursion ends.
-/

namespace Savr

namespace Vdf

/-- The tokens of the text format. -/
inductive Token
  | str (s : String)
  | openBrace
  | closeBrace
  deriving DecidableEq, Repr

/-! ## The lexer -/

/-- The byte of a character of ASCII. -/
def byteOf (c : Char) : UInt8 := UInt8.ofNat c.toNat

/-- The number of bytes of a character, by its first one. -/
def utf8Len (first : UInt8) : ℕ :=
  if first < 0x80 then 1
  else if first >>> 5 = 0b110 then 2
  else if first >>> 4 = 0b1110 then 3
  else 4

theorem utf8Len_pos (first : UInt8) : 0 < utf8Len first := by
  rw [utf8Len]
  split_ifs <;> decide

/-- The escapes of a string; the byte behind an unknown one is taken for a character. -/
def unescapeByte (b : UInt8) : Char :=
  if b = byteOf 'n' then '\n' else if b = byteOf 't' then '\t' else Char.ofNat b.toNat

/-- The characters of a string up to its closing quote, and the bytes behind it. Behind a
backslash one byte is taken, whatever character it belongs to. -/
def readString (bytes : Bytes) : Option (List Char × Bytes) :=
  match bytes with
  | [] => none
  | b :: rest =>
      if b = byteOf '"' then some ([], rest)
      else if b = byteOf '\\' then
        match rest with
        | [] => none
        | e :: rest => (readString rest).map fun r => (unescapeByte e :: r.1, r.2)
      else
        (Utf8.decode ((b :: rest).take (utf8Len b))).bind fun chars =>
          (readString ((b :: rest).drop (utf8Len b))).map fun r => (chars ++ r.1, r.2)
termination_by bytes.length
decreasing_by
  · simp only [List.length_cons]
    omega
  · have hpos := utf8Len_pos b
    simp only [List.length_drop, List.length_cons]
    omega

/-- A text in quotes takes at least its last quote. -/
theorem length_readString {bytes after : Bytes} {s : List Char}
    (h : readString bytes = some (s, after)) : after.length < bytes.length := by
  fun_induction readString bytes generalizing s after with
  | case1 => cases h
  | case2 rest =>
      obtain ⟨rfl, rfl⟩ := Prod.mk.inj (Option.some.inj h)
      exact Nat.lt_succ_self _
  | case3 => cases h
  | case4 _ e rest ih =>
      obtain ⟨⟨s', after'⟩, hread, heq⟩ := Option.map_eq_some_iff.mp h
      obtain ⟨-, rfl⟩ := Prod.mk.inj heq
      have hlt := ih hread
      simp only [List.length_cons]
      omega
  | case5 b rest hquote hslash ih =>
      obtain ⟨chars, hchars, h⟩ := Option.bind_eq_some_iff.mp h
      obtain ⟨⟨s', after'⟩, hread, heq⟩ := Option.map_eq_some_iff.mp h
      obtain ⟨-, rfl⟩ := Prod.mk.inj heq
      have hlt : after'.length < _ := ih hread
      rw [List.length_drop] at hlt
      exact Nat.lt_of_lt_of_le hlt (Nat.sub_le _ _)

/-- `Lexer::tokens`: the tokens of the rest of the text. Whatever opens no token is skipped. -/
def lexBytes (bytes : Bytes) : Option (List Token) :=
  match bytes with
  | [] => some []
  | b :: rest =>
      if b = byteOf '{' then (lexBytes rest).map (.openBrace :: ·)
      else if b = byteOf '}' then (lexBytes rest).map (.closeBrace :: ·)
      else if b = byteOf '"' then
        match _h : readString rest with
        | none => none
        | some (s, after) => (lexBytes after).map (.str (String.ofList s) :: ·)
      -- a comment, up to the end of the line
      else if b = byteOf '/' ∧ rest.head? = some (byteOf '/') then
        lexBytes (rest.dropWhile (· ≠ byteOf '\n'))
      else lexBytes rest
termination_by bytes.length
decreasing_by
  · exact Nat.lt_succ_self _
  · exact Nat.lt_succ_self _
  · exact Nat.lt_succ_of_lt (length_readString _h)
  · exact Nat.lt_succ_of_le (List.dropWhile_suffix _).length_le
  · exact Nat.lt_succ_self _

/-- `tokenize`. -/
def tokenize (text : String) : Option (List Token) := lexBytes (Utf8.encode text.toList)

/-! ## The lexer on characters -/

/-- What a character stands for behind a backslash. -/
def unescapeChar (c : Char) : Char :=
  if c = 'n' then '\n' else if c = 't' then '\t' else c

/-- A string of a text of characters: `readString`, but behind a backslash a whole character
is taken. -/
def readChars (chars : List Char) : Option (List Char × List Char) :=
  match chars with
  | [] => none
  | c :: rest =>
      if c = '"' then some ([], rest)
      else if c = '\\' then
        match rest with
        | [] => none
        | e :: rest => (readChars rest).map fun r => (unescapeChar e :: r.1, r.2)
      else (readChars rest).map fun r => (c :: r.1, r.2)

/-- So it does, read by characters. -/
theorem length_readChars {chars after s : List Char} (h : readChars chars = some (s, after)) :
    after.length < chars.length := by
  fun_induction readChars chars generalizing s after with
  | case1 => cases h
  | case2 rest =>
      obtain ⟨rfl, rfl⟩ := Prod.mk.inj (Option.some.inj h)
      exact Nat.lt_succ_self _
  | case3 => cases h
  | case4 _ e rest ih =>
      obtain ⟨⟨s', after'⟩, hread, heq⟩ := Option.map_eq_some_iff.mp h
      obtain ⟨-, rfl⟩ := Prod.mk.inj heq
      have hlt := ih hread
      simp only [List.length_cons]
      omega
  | case5 c rest hquote hslash ih =>
      obtain ⟨⟨s', after'⟩, hread, heq⟩ := Option.map_eq_some_iff.mp h
      obtain ⟨-, rfl⟩ := Prod.mk.inj heq
      exact Nat.lt_succ_of_lt (ih hread)

/-- **The specified lexer**: it reads characters, where `lexBytes` reads bytes. Otherwise the
two agree branch by branch. -/
def lexChars (chars : List Char) : Option (List Token) :=
  match chars with
  | [] => some []
  | c :: rest =>
      if c = '{' then (lexChars rest).map (.openBrace :: ·)
      else if c = '}' then (lexChars rest).map (.closeBrace :: ·)
      else if c = '"' then
        match _h : readChars rest with
        | none => none
        | some (s, after) => (lexChars after).map (.str (String.ofList s) :: ·)
      else if c = '/' ∧ rest.head? = some '/' then lexChars (rest.dropWhile (· ≠ '\n'))
      else lexChars rest
termination_by chars.length
decreasing_by
  · exact Nat.lt_succ_self _
  · exact Nat.lt_succ_self _
  · exact Nat.lt_succ_of_lt (length_readChars _h)
  · exact Nat.lt_succ_of_le (List.dropWhile_suffix _).length_le
  · exact Nat.lt_succ_self _

/-- No character outside ASCII is escaped before the string ends. It looks no further than
the closing quote. -/
def stringAscii (chars : List Char) : Bool :=
  match chars with
  | [] => true
  | c :: rest =>
      if c = '"' then true
      else if c = '\\' then
        match rest with
        | [] => true
        | e :: rest => e.toNat < 128 && stringAscii rest
      else stringAscii rest

/-- No character outside ASCII is escaped in a string of the text. Comments and what lies
between the strings do not matter. -/
def escapesAscii (chars : List Char) : Bool :=
  match chars with
  | [] => true
  | c :: rest =>
      if c = '"' then
        stringAscii rest && match _h : readChars rest with
          | none => true
          | some (_, after) => escapesAscii after
      else if c = '/' ∧ rest.head? = some '/' then escapesAscii (rest.dropWhile (· ≠ '\n'))
      else escapesAscii rest
termination_by chars.length
decreasing_by
  · exact Nat.lt_succ_of_lt (length_readChars _h)
  · exact Nat.lt_succ_of_le (List.dropWhile_suffix _).length_le
  · exact Nat.lt_succ_self _

section Lexer

open Utf8

variable {c d : Char} {chars : List Char} {rest : Bytes}

theorem utf8Len_first {b : UInt8} (h : String.utf8EncodeChar c = b :: rest) :
    utf8Len b = c.utf8Size := by
  obtain ⟨hfirst, hsize⟩ := first_byte h
  have hall : ∀ hfirst : b.IsUTF8FirstByte, utf8Len b = b.utf8ByteSize hfirst :=
    forall_byte (b := b) (P := fun b => ∀ hfirst : b.IsUTF8FirstByte,
      utf8Len b = b.utf8ByteSize hfirst) (by decide +kernel)
  exact (hall hfirst).trans hsize

theorem byteOf_inj (hc : c.toNat < 128) (hd : d.toNat < 128) : byteOf c = byteOf d ↔ c = d := by
  rw [byteOf, byteOf, ← UInt8.toNat_inj, UInt8.toNat_ofNat', UInt8.toNat_ofNat',
    Nat.mod_eq_of_lt (by omega), Nat.mod_eq_of_lt (by omega)]
  exact Char.toNat_inj

theorem byteOf_lt (hd : d.toNat < 128) : byteOf d < 128 := by
  rw [UInt8.lt_iff_toNat_lt, byteOf, UInt8.toNat_ofNat', Nat.mod_eq_of_lt (by omega)]
  exact hd

/-- No byte of a character outside ASCII is the byte of one inside. -/
theorem ne_byteOf {b : UInt8} (hb : 128 ≤ b) (hd : d.toNat < 128) : b ≠ byteOf d := by
  rintro rfl
  exact UInt8.not_le.mpr (byteOf_lt hd) hb

/-- A character outside ASCII is none of these. -/
theorem ne_of_not_ascii (hc : 128 ≤ c.toNat) (hd : d.toNat < 128) : c ≠ d := by
  rintro rfl
  omega

/-- The first byte of an ASCII character is the character. -/
theorem head_encode (hd : d.toNat < 128) :
    (encode chars).head? = some (byteOf d) ↔ chars.head? = some d := by
  cases chars with
  | nil => simp
  | cons c chars =>
      rw [encode_cons, List.head?_cons, Option.some_inj]
      by_cases hc : c.toNat < 128
      · rw [encodeChar_of_ascii hc, List.singleton_append, List.head?_cons, Option.some_inj]
        exact byteOf_inj hc hd
      · rw [not_lt] at hc
        obtain ⟨b, b', rest, hbytes, hb, -⟩ := encodeChar_of_not_ascii hc
        rw [hbytes, List.cons_append, List.head?_cons, Option.some_inj]
        exact iff_of_false (ne_byteOf hb hd) (ne_of_not_ascii hc hd)

/-- Skipping to an ASCII character is the same by bytes and by characters. -/
theorem dropWhile_encode (hd : d.toNat < 128) :
    (encode chars).dropWhile (· ≠ byteOf d) = encode (chars.dropWhile (· ≠ d)) := by
  induction chars with
  | nil => rfl
  | cons c chars ih =>
      rw [encode_cons]
      by_cases hc : c.toNat < 128
      · rw [encodeChar_of_ascii hc, List.singleton_append]
        by_cases heq : c = d
        · subst heq
          rw [List.dropWhile_cons_of_neg (by simp [byteOf]), List.dropWhile_cons_of_neg (by simp),
            encode_cons, encodeChar_of_ascii hc]
          rfl
        · have hne : ¬ byteOf c = byteOf d := fun h => heq ((byteOf_inj hc hd).mp h)
          rw [← byteOf, List.dropWhile_cons_of_pos (by simpa using hne),
            List.dropWhile_cons_of_pos (by simpa using heq), ih]
      · rw [not_lt] at hc
        have hskip : ∀ b ∈ String.utf8EncodeChar c, decide (b ≠ byteOf d) = true := fun b hb =>
          decide_eq_true (ne_byteOf (le_of_mem_encodeChar hc b hb) hd)
        rw [List.dropWhile_append_of_pos hskip, ih,
          List.dropWhile_cons_of_pos (by simpa using ne_of_not_ascii hc hd)]

theorem unescape_ascii (hc : c.toNat < 128) : unescapeByte (byteOf c) = unescapeChar c := by
  have hback : Char.ofNat (byteOf c).toNat = c := by
    rw [byteOf, UInt8.toNat_ofNat', Nat.mod_eq_of_lt (by omega), Char.ofNat_toNat]
  simp only [unescapeByte, unescapeChar, byteOf_inj hc (show 'n'.toNat < 128 by decide),
    byteOf_inj hc (show 't'.toNat < 128 by decide), hback]

theorem readString_nil : readString [] = none := by rw [readString]

theorem readString_quote (bytes : Bytes) : readString (byteOf '"' :: bytes) = some ([], bytes) := by
  rw [readString.eq_def]
  exact if_pos rfl

theorem readString_escape (e : UInt8) (bytes : Bytes) :
    readString (byteOf '\\' :: e :: bytes)
      = (readString bytes).map fun r => (unescapeByte e :: r.1, r.2) := by
  rw [readString.eq_def]
  exact if_neg (by decide)

theorem readString_other {b : UInt8} (hquote : b ≠ byteOf '"') (hslash : b ≠ byteOf '\\')
    (bytes : Bytes) : readString (b :: bytes) =
      (decode ((b :: bytes).take (utf8Len b))).bind fun chars =>
        (readString ((b :: bytes).drop (utf8Len b))).map fun r => (chars ++ r.1, r.2) := by
  rw [readString.eq_def]
  exact (if_neg hquote).trans (if_neg hslash)

theorem stringAscii_quote (chars : List Char) : stringAscii ('"' :: chars) = true := by
  rw [stringAscii.eq_def]
  exact if_pos rfl

theorem stringAscii_escape (e : Char) (chars : List Char) :
    stringAscii ('\\' :: e :: chars) = (decide (e.toNat < 128) && stringAscii chars) := by
  rw [stringAscii.eq_def]
  exact if_neg (by decide)

theorem stringAscii_other (hquote : c ≠ '"') (hslash : c ≠ '\\') (chars : List Char) :
    stringAscii (c :: chars) = stringAscii chars := by
  rw [stringAscii.eq_def]
  exact (if_neg hquote).trans (if_neg hslash)

/-- A character of a string that is not escaped is read as a whole. -/
theorem readString_char (hquote : c ≠ '"') (hslash : c ≠ '\\') (bytes : Bytes) :
    readString (String.utf8EncodeChar c ++ bytes)
      = (readString bytes).map fun r => (c :: r.1, r.2) := by
  obtain ⟨b, rest, hbytes⟩ := List.exists_cons_of_ne_nil (String.utf8EncodeChar_ne_nil (c := c))
  have hne : ∀ d : Char, d.toNat < 128 → c ≠ d → b ≠ byteOf d := by
    intro d hd hcd
    by_cases hc : c.toNat < 128
    · rw [encodeChar_of_ascii hc] at hbytes
      obtain ⟨rfl, -⟩ := List.cons.inj hbytes
      exact fun h => hcd ((byteOf_inj hc hd).mp h)
    · refine ne_byteOf (le_of_mem_encodeChar (not_lt.mp hc) b ?_) hd
      rw [hbytes]
      exact List.mem_cons_self
  have hlen : utf8Len b = (String.utf8EncodeChar c).length := by
    rw [utf8Len_first hbytes, String.length_utf8EncodeChar]
  have hread := readString_other (hne '"' (by decide) hquote) (hne '\\' (by decide) hslash)
    (rest ++ bytes)
  rw [← List.cons_append, ← hbytes, hlen, List.take_left, List.drop_left,
    decode_encodeChar] at hread
  exact hread

/-- Behind a backslash, the rest of a character outside ASCII is no text. -/
theorem readString_escaped_not_ascii (hc : 128 ≤ c.toNat) (bytes : Bytes) :
    readString (byteOf '\\' :: (String.utf8EncodeChar c ++ bytes)) = none := by
  obtain ⟨b, b', rest, hbytes, -, hrest⟩ := encodeChar_of_not_ascii hc
  have hfirst := hrest b' List.mem_cons_self
  have hle := le_of_not_first hfirst
  obtain ⟨n, hn⟩ := Nat.exists_eq_succ_of_ne_zero (utf8Len_pos b').ne'
  rw [hbytes, List.cons_append, List.cons_append, readString_escape,
    readString_other (ne_byteOf hle (by decide)) (ne_byteOf hle (by decide)), hn,
    List.take_succ_cons, decode_eq_none hfirst]
  rfl

/-- **A string, byte by byte.**  It is read as the string of characters it is, unless a
character outside ASCII is escaped: then nothing is read. -/
theorem readString_encode (chars : List Char) : readString (encode chars) =
    if stringAscii chars then (readChars chars).map fun r => (r.1, encode r.2) else none := by
  have hslash : String.utf8EncodeChar '\\' = [byteOf '\\'] := encodeChar_of_ascii (by decide)
  fun_induction readChars chars with
  | case1 =>
      rw [encode_nil, readString_nil]
      exact (ite_self none).symm
  | case2 rest =>
      have hquote : String.utf8EncodeChar '"' = [byteOf '"'] := encodeChar_of_ascii (by decide)
      rw [encode_cons, hquote, List.singleton_append, readString_quote, stringAscii_quote]
      rfl
  | case3 =>
      rw [encode_cons, hslash, encode_nil, List.append_nil, readString.eq_def]
      exact (ite_self none).symm
  | case4 e rest _ ih =>
      rw [encode_cons, hslash, List.singleton_append, encode_cons, stringAscii_escape]
      by_cases he : e.toNat < 128
      · rw [encodeChar_of_ascii he, List.singleton_append, ← byteOf, readString_escape, ih,
          unescape_ascii he, decide_eq_true he, Bool.true_and]
        split_ifs
        · rw [Option.map_map, Option.map_map]
          rfl
        · rfl
      · rw [readString_escaped_not_ascii (not_lt.mp he), decide_eq_false he]
        rfl
  | case5 c rest hquote hslash ih =>
      rw [encode_cons, readString_char hquote hslash, ih, stringAscii_other hquote hslash]
      split_ifs
      · rw [Option.map_map, Option.map_map]
        rfl
      · rfl

/-- Between the tokens, the bytes of characters outside ASCII are skipped. -/
theorem lexBytes_skip {bytes : Bytes} (h : ∀ b ∈ bytes, 128 ≤ b) (after : Bytes) :
    lexBytes (bytes ++ after) = lexBytes after := by
  induction bytes with
  | nil => rfl
  | cons b bytes ih =>
      obtain ⟨hb, hbytes⟩ := List.forall_mem_cons.mp h
      rw [List.cons_append, lexBytes, if_neg (ne_byteOf hb (by decide)),
        if_neg (ne_byteOf hb (by decide)), if_neg (ne_byteOf hb (by decide)),
        if_neg fun hslash => ne_byteOf hb (by decide) hslash.1, ih hbytes]

/-- A quote opens a string, and the lexer goes on behind it. -/
theorem lexBytes_string (bytes : Bytes) : lexBytes (byteOf '"' :: bytes) =
    (readString bytes).bind fun r => (lexBytes r.2).map (.str (String.ofList r.1) :: ·) := by
  rw [lexBytes, if_neg (by decide), if_neg (by decide), if_pos rfl]
  split
  · rename_i hread
    rw [hread]
    rfl
  · rename_i s after hread
    rw [hread]
    rfl

/-- The same of the specified lexer. -/
theorem lexChars_string (chars : List Char) : lexChars ('"' :: chars) =
    (readChars chars).bind fun r => (lexChars r.2).map (.str (String.ofList r.1) :: ·) := by
  rw [lexChars, if_neg (by decide), if_neg (by decide), if_pos rfl]
  split
  · rename_i hread
    rw [hread]
    rfl
  · rename_i s after hread
    rw [hread]
    rfl

/-- The condition for a text that begins with a string is that for the string and that for
the rest. -/
theorem escapesAscii_string (chars : List Char) : escapesAscii ('"' :: chars) =
    (stringAscii chars && (readChars chars).all fun r => escapesAscii r.2) := by
  rw [escapesAscii, if_pos rfl]
  split
  · rename_i hread
    rw [hread]
    rfl
  · rename_i s after hread
    rw [hread]
    rfl

theorem escapesAscii_comment (hcomment : c = '/' ∧ chars.head? = some '/') :
    escapesAscii (c :: chars) = escapesAscii (chars.dropWhile (· ≠ '\n')) := by
  have hquote : c ≠ '"' := by
    rw [hcomment.1]
    decide
  rw [escapesAscii, if_neg hquote, if_pos hcomment]

theorem escapesAscii_other (hquote : c ≠ '"') (hcomment : ¬ (c = '/' ∧ chars.head? = some '/')) :
    escapesAscii (c :: chars) = escapesAscii chars := by
  rw [escapesAscii, if_neg hquote, if_neg hcomment]

theorem encode_cons_of_ascii (hc : c.toNat < 128) (chars : List Char) :
    encode (c :: chars) = byteOf c :: encode chars := by
  rw [encode_cons, encodeChar_of_ascii hc]
  rfl

/-- **The lexer, in terms of characters.**  Where no character outside ASCII is escaped in a
string, it does what is specified; elsewhere it fails. -/
theorem lexBytes_encode (chars : List Char) :
    lexBytes (encode chars) = if escapesAscii chars then lexChars chars else none := by
  fun_induction lexChars chars with
  | case1 => rw [encode_nil, lexBytes, escapesAscii, if_pos rfl]
  | case2 rest ih =>
      rw [encode_cons_of_ascii (by decide), lexBytes, if_pos rfl, ih,
        escapesAscii_other (by decide) fun h => absurd h.1 (by decide)]
      split_ifs <;> rfl
  | case3 rest _ ih =>
      rw [encode_cons_of_ascii (by decide), lexBytes, if_neg (by decide), if_pos rfl, ih,
        escapesAscii_other (by decide) fun h => absurd h.1 (by decide)]
      split_ifs <;> rfl
  | case4 rest hread =>
      rw [encode_cons_of_ascii (by decide), lexBytes_string, readString_encode, hread, ite_self]
      split_ifs <;> rfl
  | case5 rest s after hread _ _ ih =>
      rw [encode_cons_of_ascii (by decide), lexBytes_string, readString_encode, hread,
        escapesAscii_string, hread]
      cases stringAscii rest with
      | false => rfl
      | true =>
          change (lexBytes (encode after)).map _ = if escapesAscii after then _ else none
          rw [ih]
          split_ifs <;> rfl
  | case6 c rest hopen hclose hquote hcomment ih =>
      have hc : c.toNat < 128 := by
        rw [hcomment.1]
        decide
      have hbytes : byteOf c = byteOf '/' ∧ (encode rest).head? = some (byteOf '/') :=
        ⟨congrArg byteOf hcomment.1, (head_encode (by decide)).mpr hcomment.2⟩
      rw [encode_cons_of_ascii hc, lexBytes, if_neg (mt (byteOf_inj hc (by decide)).mp hopen),
        if_neg (mt (byteOf_inj hc (by decide)).mp hclose),
        if_neg (mt (byteOf_inj hc (by decide)).mp hquote), if_pos hbytes,
        dropWhile_encode (by decide), ih, escapesAscii_comment hcomment]
  | case7 c rest hopen hclose hquote hcomment ih =>
      rw [escapesAscii_other hquote hcomment, ← ih]
      by_cases hc : c.toNat < 128
      · have hbytes : ¬ (byteOf c = byteOf '/' ∧ (encode rest).head? = some (byteOf '/')) := by
          rw [byteOf_inj hc (by decide), head_encode (by decide)]
          exact hcomment
        rw [encode_cons_of_ascii hc, lexBytes, if_neg (mt (byteOf_inj hc (by decide)).mp hopen),
          if_neg (mt (byteOf_inj hc (by decide)).mp hclose),
          if_neg (mt (byteOf_inj hc (by decide)).mp hquote), if_neg hbytes]
      · exact lexBytes_skip (le_of_mem_encodeChar (not_lt.mp hc)) _

/-- **When the lexer does what is specified**: the text ends inside a string, so that both fail,
or no character outside ASCII is escaped in a string. -/
theorem tokenize_eq_lexChars_iff (text : String) :
    tokenize text = lexChars text.toList ↔
      lexChars text.toList = none ∨ escapesAscii text.toList = true := by
  rw [tokenize, lexBytes_encode]
  cases escapesAscii text.toList with
  | true => simp
  | false =>
      simp only [Bool.false_eq_true, if_false, or_false]
      exact eq_comm

/-- An escaped letter outside ASCII makes the whole text unreadable. -/
theorem escaped_letter_not_lexed :
    lexChars ['"', '\\', 'é', '"'] = some [.str "é"] ∧
      tokenize (String.ofList ['"', '\\', 'é', '"']) = none := by
  have hlex : lexChars ['"', '\\', 'é', '"'] = some [.str "é"] := by
    rw [lexChars_string]
    simp [readChars, lexChars, unescapeChar]
  refine ⟨hlex, ?_⟩
  rw [tokenize, String.toList_ofList, lexBytes_encode, escapesAscii_string, stringAscii_escape]
  rfl

end Lexer

/-! ## The parser -/

/-- A parsed node: a string, or an object with its entries in order. -/
inductive Kv
  | str (s : String)
  | obj (entries : List (String × Kv))

/-- What is left after a step: fewer tokens. -/
abbrev Rest (tokens : List Token) := { rest : List Token // rest.length < tokens.length }

mutual

/-- A key with its value, which is a string or an object. The rest is shorter, so that the
two functions end. -/
def parsePair (tokens : List Token) : Option ((String × Kv) × Rest tokens) :=
  match tokens with
  | .str key :: .str s :: rest => some ((key, .str s), ⟨rest, by simp⟩)
  | .str key :: .openBrace :: rest =>
      match parseObj rest with
      | none => none
      | some (entries, ⟨after, hafter⟩) =>
          some ((key, .obj entries), ⟨after, by simp only [List.length_cons]; omega⟩)
  | _ => none
termination_by (tokens.length, 0)

/-- The entries up to the closing brace, which has to be there. -/
def parseObj (tokens : List Token) : Option (List (String × Kv) × Rest tokens) :=
  match tokens with
  | [] => none
  | .closeBrace :: rest => some ([], ⟨rest, by simp⟩)
  | token :: rest =>
      match parsePair (token :: rest) with
      | none => none
      | some (pair, ⟨after, hafter⟩) =>
          match parseObj after with
          | none => none
          | some (entries, ⟨final, hfinal⟩) => some (pair :: entries, ⟨final, hfinal.trans hafter⟩)
termination_by (tokens.length, 1)

end

/-- The top-level pairs, up to the end of the tokens. A brace that closes nothing is an error. -/
def parseTokens (tokens : List Token) : Option (List (String × Kv)) :=
  match tokens with
  | [] => some []
  | token :: tokens =>
      match parsePair (token :: tokens) with
      | none => none
      | some (pair, ⟨rest, _hrest⟩) => (parseTokens rest).map (pair :: ·)
termination_by tokens.length
decreasing_by exact _hrest

/-- Parse a document into a root object. -/
def parse (text : String) : Option Kv :=
  (tokenize text).bind fun tokens => (parseTokens tokens).map .obj

/-! ## The grammar -/

mutual

/-- The tokens of a node. -/
def Kv.tokens : Kv → List Token
  | .str s => [.str s]
  | .obj entries => .openBrace :: (entryTokens entries ++ [.closeBrace])

/-- The tokens of entries. -/
def entryTokens : List (String × Kv) → List Token
  | [] => []
  | (key, value) :: entries => .str key :: (value.tokens ++ entryTokens entries)

end

section Parser

variable {tokens rest : List Token} {pair : String × Kv} {entries : List (String × Kv)}

/-- A pair is parsed from the front of the tokens. -/
def TakesPair (tokens : List Token) (pair : String × Kv) (rest : List Token) : Prop :=
  ∃ h, parsePair tokens = some (pair, ⟨rest, h⟩)

/-- Entries up to a closing brace are parsed from the front of the tokens. -/
def TakesObj (tokens : List Token) (entries : List (String × Kv)) (rest : List Token) : Prop :=
  ∃ h, parseObj tokens = some (entries, ⟨rest, h⟩)

/-- A key with its value, by the grammar. -/
theorem takesPair_iff : TakesPair tokens pair rest ↔
    (∃ s, pair.2 = .str s ∧ tokens = .str pair.1 :: .str s :: rest) ∨
      ∃ entries inner, pair.2 = .obj entries ∧ tokens = .str pair.1 :: .openBrace :: inner ∧
        TakesObj inner entries rest := by
  obtain ⟨key, value⟩ := pair
  constructor
  · rintro ⟨h, heq⟩
    rw [parsePair.eq_def] at heq
    split at heq
    · obtain ⟨⟨rfl, rfl⟩, rfl⟩ := by simpa using heq
      exact .inl ⟨_, rfl, rfl⟩
    · rename_i k inner
      split at heq
      · cases heq
      · rename_i entries after hafter hobj
        obtain ⟨⟨rfl, rfl⟩, rfl⟩ := by simpa using heq
        exact .inr ⟨entries, inner, rfl, rfl, hafter, hobj⟩
    · cases heq
  · rintro (⟨s, rfl, rfl⟩ | ⟨entries, inner, rfl, rfl, h, hobj⟩)
    · exact ⟨by simp, by rw [parsePair.eq_def]⟩
    · refine ⟨by simp only [List.length_cons]; omega, ?_⟩
      rw [parsePair.eq_def]
      simp only [hobj]

/-- An object, by the grammar. -/
theorem takesObj_iff : TakesObj tokens entries rest ↔
    (entries = [] ∧ tokens = .closeBrace :: rest) ∨
      ∃ pair more after, entries = pair :: more ∧ TakesPair tokens pair after ∧
        TakesObj after more rest := by
  constructor
  · rintro ⟨h, heq⟩
    rw [parseObj.eq_def] at heq
    split at heq
    · cases heq
    · obtain ⟨rfl, rfl⟩ := by simpa using heq
      exact .inl ⟨rfl, rfl⟩
    · rename_i token inner hclose
      split at heq
      · cases heq
      · rename_i pair after hafter hpair
        split at heq
        · cases heq
        · rename_i more final hfinal hobj
          obtain ⟨rfl, rfl⟩ := by simpa using heq
          exact .inr ⟨pair, more, after, rfl, ⟨hafter, hpair⟩, hfinal, hobj⟩
  · rintro (⟨rfl, rfl⟩ | ⟨pair, more, after, rfl, ⟨hafter, hpair⟩, hfinal, hobj⟩)
    · exact ⟨by simp, by rw [parseObj.eq_def]⟩
    · refine ⟨hfinal.trans hafter, ?_⟩
      rw [parseObj.eq_def]
      split
      · simp [parsePair.eq_def] at hpair
      · simp [parsePair.eq_def] at hpair
      · simp only [hpair, hobj]

theorem length_of_takesPair (h : TakesPair tokens pair rest) : rest.length < tokens.length :=
  h.1

/-- What the parser takes is what the grammar derives. -/
theorem tokens_of_takes (n : ℕ) :
    (∀ tokens pair rest, tokens.length < n → TakesPair tokens pair rest →
      tokens = .str pair.1 :: (pair.2.tokens ++ rest)) ∧
    ∀ tokens entries rest, tokens.length < n → TakesObj tokens entries rest →
      tokens = entryTokens entries ++ .closeBrace :: rest := by
  induction n with
  | zero => exact ⟨fun _ _ _ h => absurd h (Nat.not_lt_zero _), fun _ _ _ h =>
      absurd h (Nat.not_lt_zero _)⟩
  | succ n ih =>
      obtain ⟨ihPair, ihObj⟩ := ih
      have hpair : ∀ tokens pair rest, tokens.length < n + 1 → TakesPair tokens pair rest →
          tokens = .str pair.1 :: (pair.2.tokens ++ rest) := by
        intro tokens pair rest hlen htakes
        rcases takesPair_iff.mp htakes with ⟨s, hvalue, rfl⟩ | ⟨entries, inner, hvalue, rfl, hobj⟩
        · rw [hvalue, Kv.tokens]
          rfl
        · rw [hvalue, Kv.tokens, ihObj inner entries rest (by simp at hlen; omega) hobj]
          simp
      refine ⟨hpair, ?_⟩
      intro tokens entries rest hlen htakes
      rcases takesObj_iff.mp htakes with ⟨rfl, rfl⟩ | ⟨pair, more, after, rfl, htakes, hobj⟩
      · rfl
      · have hafter := length_of_takesPair htakes
        rw [hpair tokens pair after hlen htakes, ihObj after more rest (by omega) hobj, entryTokens]
        simp

mutual

/-- What the grammar derives is parsed: a node behind its key. -/
theorem takesPair_tokens (key : String) (value : Kv) (rest : List Token) :
    TakesPair (.str key :: (value.tokens ++ rest)) (key, value) rest := by
  cases value with
  | str s => exact takesPair_iff.mpr (.inl ⟨s, rfl, by rw [Kv.tokens]; rfl⟩)
  | obj entries =>
      refine takesPair_iff.mpr (.inr ⟨entries, entryTokens entries ++ .closeBrace :: rest, rfl, ?_,
        takesObj_tokens entries rest⟩)
      rw [Kv.tokens]
      simp

/-- And entries, up to the brace that closes them. -/
theorem takesObj_tokens (entries : List (String × Kv)) (rest : List Token) :
    TakesObj (entryTokens entries ++ .closeBrace :: rest) entries rest := by
  cases entries with
  | nil => exact takesObj_iff.mpr (.inl ⟨rfl, by rw [entryTokens]; rfl⟩)
  | cons pair more =>
      refine takesObj_iff.mpr (.inr ⟨pair, more, entryTokens more ++ .closeBrace :: rest, rfl, ?_,
        takesObj_tokens more rest⟩)
      rw [entryTokens, List.cons_append, List.append_assoc]
      exact takesPair_tokens pair.1 pair.2 _

end

theorem takesPair_iff_tokens :
    TakesPair tokens pair rest ↔ tokens = .str pair.1 :: (pair.2.tokens ++ rest) := by
  constructor
  · exact (tokens_of_takes (tokens.length + 1)).1 tokens pair rest (Nat.lt_succ_self _)
  · rintro rfl
    exact takesPair_tokens pair.1 pair.2 rest

/-- **The parser accepts exactly its grammar.** -/
theorem parseTokens_eq_some_iff :
    parseTokens tokens = some entries ↔ tokens = entryTokens entries := by
  induction entries generalizing tokens with
  | nil =>
      cases tokens with
      | nil => simp [parseTokens, entryTokens]
      | cons token tokens =>
          rw [parseTokens]
          simp only [entryTokens, reduceCtorEq, iff_false]
          split
          · simp
          · simp
  | cons pair entries ih =>
      have hstep : parseTokens tokens = some (pair :: entries) ↔
          ∃ rest, TakesPair tokens pair rest ∧ parseTokens rest = some entries := by
        cases tokens with
        | nil => simp [parseTokens, TakesPair, parsePair.eq_def]
        | cons token tokens =>
            rw [parseTokens]
            split
            · rename_i hnone
              simp [TakesPair, hnone]
            · rename_i pair' rest hrest hpair
              constructor
              · intro h
                obtain ⟨more, hmore, heq⟩ := Option.map_eq_some_iff.mp h
                obtain ⟨rfl, rfl⟩ := List.cons.inj heq
                exact ⟨rest, ⟨hrest, hpair⟩, hmore⟩
              · rintro ⟨rest', ⟨hrest', hpair'⟩, hmore⟩
                obtain ⟨rfl, rfl⟩ : pair' = pair ∧ rest = rest' := by
                  simpa [hpair] using hpair'
                rw [hmore]
                rfl
      rw [hstep, entryTokens]
      constructor
      · rintro ⟨rest, hpair, hrest⟩
        rw [takesPair_iff_tokens.mp hpair, ih.mp hrest]
      · rintro rfl
        exact ⟨entryTokens entries, takesPair_tokens _ _ _, ih.mpr rfl⟩

end Parser

/-! ## Writing a tree -/

/-- A character of a quoted string. -/
def escapeChar (c : Char) : List Char :=
  if c = '"' then ['\\', '"']
  else if c = '\\' then ['\\', '\\']
  else if c = '\n' then ['\\', 'n']
  else if c = '\t' then ['\\', 't']
  else [c]

/-- A text in quotes, with its escapes. -/
def quoted (s : String) : List Char := '"' :: (s.toList.flatMap escapeChar ++ ['"'])

mutual

/-- A value as text, without layout. -/
def Kv.write : Kv → List Char
  | .str s => quoted s
  | .obj entries => '{' :: (writeEntries entries ++ ['}'])

/-- Each entry on a line of its own. -/
def writeEntries : List (String × Kv) → List Char
  | [] => []
  | (key, value) :: entries =>
      quoted key ++ (' ' :: (value.write ++ ('\n' :: writeEntries entries)))

end

/-- Whatever comes next, the text is read as these tokens, and escapes ASCII alone. -/
def Lexes (chars : List Char) (tokens : List Token) : Prop :=
  ∀ rest, lexChars (chars ++ rest) = (lexChars rest).map (tokens ++ ·) ∧
    escapesAscii (chars ++ rest) = escapesAscii rest

section Writer

variable {chars more : List Char} {tokens tokens' : List Token}

theorem lexes_nil : Lexes [] [] := by
  intro rest
  exact ⟨by simp, rfl⟩

theorem Lexes.append (h : Lexes chars tokens) (h' : Lexes more tokens') :
    Lexes (chars ++ more) (tokens ++ tokens') := by
  intro rest
  rw [List.append_assoc, (h _).1, (h _).2, (h' _).1, (h' _).2, Option.map_map]
  refine ⟨congrArg (fun f => (lexChars rest).map f) (funext fun _ => ?_), rfl⟩
  exact (List.append_assoc ..).symm

theorem lexes_open : Lexes ['{'] [.openBrace] := by
  intro rest
  rw [List.singleton_append, lexChars, if_pos rfl,
    escapesAscii_other (by decide) fun h => absurd h.1 (by decide)]
  exact ⟨rfl, rfl⟩

theorem lexes_close : Lexes ['}'] [.closeBrace] := by
  intro rest
  rw [List.singleton_append, lexChars, if_neg (by decide), if_pos rfl,
    escapesAscii_other (by decide) fun h => absurd h.1 (by decide)]
  exact ⟨rfl, rfl⟩

/-- White space is skipped. -/
theorem lexes_blank {c : Char} (h : c = ' ' ∨ c = '\n') : Lexes [c] [] := by
  intro rest
  have hc : c ≠ '{' ∧ c ≠ '}' ∧ c ≠ '"' ∧ c ≠ '/' := by
    rcases h with rfl | rfl <;> decide
  have hcomment : ¬ (c = '/' ∧ rest.head? = some '/') := fun hslash => hc.2.2.2 hslash.1
  rw [List.singleton_append, lexChars, if_neg hc.1, if_neg hc.2.1, if_neg hc.2.2.1,
    if_neg hcomment, escapesAscii_other hc.2.2.1 hcomment]
  exact ⟨by simp, rfl⟩

/-- A quoted character is read back. -/
theorem readChars_escapeChar (c : Char) (rest : List Char) :
    readChars (escapeChar c ++ rest) = (readChars rest).map (fun r => (c :: r.1, r.2)) ∧
      stringAscii (escapeChar c ++ rest) = stringAscii rest := by
  rw [escapeChar]
  split_ifs with hquote hslash hline htab
  · subst hquote
    exact ⟨by simp [readChars, unescapeChar], by simp [stringAscii_escape]⟩
  · subst hslash
    exact ⟨by simp [readChars, unescapeChar], by simp [stringAscii_escape]⟩
  · subst hline
    exact ⟨by simp [readChars, unescapeChar], by simp [stringAscii_escape]⟩
  · subst htab
    exact ⟨by simp [readChars, unescapeChar], by simp [stringAscii_escape]⟩
  · rw [List.singleton_append, readChars.eq_def, stringAscii_other hquote hslash]
    exact ⟨(if_neg hquote).trans (if_neg hslash), rfl⟩

/-- A text is read back from its quotes and escapes. -/
theorem readChars_quoted (s rest : List Char) :
    readChars (s.flatMap escapeChar ++ '"' :: rest) = some (s, rest) ∧
      stringAscii (s.flatMap escapeChar ++ '"' :: rest) = true := by
  induction s with
  | nil =>
      refine ⟨?_, stringAscii_quote rest⟩
      rw [List.flatMap_nil, List.nil_append, readChars.eq_def]
      exact if_pos rfl
  | cons c s ih =>
      rw [List.flatMap_cons, List.append_assoc, (readChars_escapeChar c _).1,
        (readChars_escapeChar c _).2, ih.1]
      exact ⟨rfl, ih.2⟩

theorem lexes_quoted (s : String) : Lexes (quoted s) [.str s] := by
  intro rest
  have hread := readChars_quoted s.toList rest
  rw [quoted, List.cons_append, List.append_assoc, List.singleton_append, lexChars_string,
    escapesAscii_string, hread.1, hread.2]
  refine ⟨?_, rfl⟩
  simp

mutual

/-- A written value lexes to its tokens. -/
theorem Kv.lexes_write (value : Kv) : Lexes value.write value.tokens := by
  cases value with
  | str s =>
      rw [Kv.write, Kv.tokens]
      exact lexes_quoted s
  | obj entries =>
      rw [Kv.write, Kv.tokens]
      exact lexes_open.append ((lexes_writeEntries entries).append lexes_close)

/-- Written entries lex to their tokens. -/
theorem lexes_writeEntries (entries : List (String × Kv)) :
    Lexes (writeEntries entries) (entryTokens entries) := by
  cases entries with
  | nil =>
      rw [writeEntries, entryTokens]
      exact lexes_nil
  | cons entry entries =>
      rw [writeEntries, entryTokens]
      exact (lexes_quoted entry.1).append ((lexes_blank (.inl rfl)).append
        (entry.2.lexes_write.append ((lexes_blank (.inr rfl)).append
          (lexes_writeEntries entries))))

end

theorem tokenize_of_lexes (h : Lexes chars tokens) :
    tokenize (String.ofList chars) = some tokens := by
  obtain ⟨hlex, hascii⟩ := h []
  rw [List.append_nil] at hlex hascii
  rw [tokenize, String.toList_ofList, lexBytes_encode, hascii, hlex, escapesAscii, lexChars,
    if_pos rfl]
  simp

end Writer

/-- **The parser accepts exactly its grammar**: the token lists that are the flattening of some
entries, which it returns in their order, and nothing else.  Every tree that is written with
quotes and escapes is parsed back. -/
theorem parser_accepts_grammar :
    (∀ tokens entries, parseTokens tokens = some entries ↔ tokens = entryTokens entries) ∧
      (∀ tokens, parseTokens tokens = none ↔ ∀ entries, tokens ≠ entryTokens entries) ∧
      ∀ entries, parse (String.ofList (writeEntries entries)) = some (.obj entries) := by
  refine ⟨fun _ _ => parseTokens_eq_some_iff, ?_, ?_⟩
  · intro tokens
    rw [Option.eq_none_iff_forall_ne_some]
    exact forall_congr' fun entries => not_congr parseTokens_eq_some_iff
  · intro entries
    rw [parse, tokenize_of_lexes (lexes_writeEntries entries), Option.bind_some,
      parseTokens_eq_some_iff.mpr rfl]
    rfl

end Vdf

end Savr
