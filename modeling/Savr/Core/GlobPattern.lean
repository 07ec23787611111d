import Savr.Core.Path
import Savr.Lib.Wildcard

/-!
# Glob patterns

The pattern language of the `glob` crate, as `glob::glob` walks a pattern: name by name.  In
a name `?` is any character, `*` any run of characters, `[...]` a class with its ranges and
`[!...]` its complement; the name `**` is any run of names.  Three stars, two stars within a
name and a class that is not closed are errors, and a pattern with an error matches nothing.

## Main results

* `matchesGlob_plain_append` — a start without `*`, `?` and `[` is taken literally.
* `plain_of_only` — a pattern that matches no path but itself holds none of the three.
-/

namespace Savr

open Wildcard

/-! ## Reading a pattern -/

/-- `CharSpecifier`. -/
inductive CharSpecifier
  | singleChar (c : Char)
  | charRange (first last : Char)
  deriving DecidableEq, Repr

/-- The character is one of those the specifier stands for. -/
def CharSpecifier.holds (c : Char) : CharSpecifier → Bool
  | .singleChar d => c = d
  | .charRange first last => first ≤ c && c ≤ last

/-- `PatternToken`, within a name. -/
inductive PatternToken
  | char (c : Char)
  | anyChar
  | anySequence
  | anyWithin (specs : List CharSpecifier)
  | anyExcept (specs : List CharSpecifier)
  deriving DecidableEq, Repr

/-- What the token matches. -/
def PatternToken.item : PatternToken → Item Char
  | .char c => exactly c
  | .anyChar => .one fun _ => true
  | .anySequence => .many fun _ => true
  | .anyWithin specs => .one fun c => specs.any (CharSpecifier.holds c)
  | .anyExcept specs => .one fun c => !specs.any (CharSpecifier.holds c)

/-- `parse_char_specifiers`. -/
def parseCharSpecifiers : List Char → List CharSpecifier
  | a :: '-' :: b :: rest => .charRange a b :: parseCharSpecifiers rest
  | a :: rest => .singleChar a :: parseCharSpecifiers rest
  | [] => []

/-- The members of a class and how many characters they and the closing bracket take.  The
first member may be a bracket. -/
def readMembers : List Char → Option (List CharSpecifier × ℕ)
  | first :: rest =>
      let more := rest.takeWhile (· ≠ ']')
      if ']' ∈ rest then some (parseCharSpecifiers (first :: more), more.length + 2) else none
  | [] => none

/-- The class that an opening bracket starts. -/
def readClass : List Char → Option (PatternToken × ℕ)
  | '!' :: rest => (readMembers rest).map fun (specs, n) => (.anyExcept specs, n + 1)
  | rest => (readMembers rest).map fun (specs, n) => (.anyWithin specs, n)

/-- `Pattern::new` on one name, with as many characters still to skip as the last class
took. -/
def parseFrom : ℕ → List Char → Option (List PatternToken)
  | _, [] => some []
  | skip + 1, _ :: chars => parseFrom skip chars
  | 0, c :: chars =>
      if c = '?' then (parseFrom 0 chars).map (.anyChar :: ·)
      else if c = '*' then
        if chars.head? = some '*' then none else (parseFrom 0 chars).map (.anySequence :: ·)
      else if c = '[' then do
        let (token, n) ← readClass chars
        (parseFrom n chars).map (token :: ·)
      else (parseFrom 0 chars).map (.char c :: ·)

/-- The name matches the tokens. -/
def matchesName (tokens : List PatternToken) : Component → Bool
  | .normal name => fits (tokens.map PatternToken.item) name.toList
  | _ => false

/-- One component of a pattern. -/
def componentItem : Component → Option (Item Component)
  | .normal name =>
      if name = "**" then some (.many Component.isNormal)
      else (parseFrom 0 name.toList).map fun tokens => .one (matchesName tokens)
  | c => some (exactly c)

/-- The path matches the pattern. -/
def matchesGlob (pattern path : PathBuf) : Bool :=
  match pattern.mapM componentItem with
  | none => false
  | some items => fits items path

/-! ## Plain texts -/

/-- None of the characters means more than itself in a pattern. -/
def Plain (chars : List Char) : Prop :=
  ∀ c ∈ chars, c ≠ '*' ∧ c ≠ '?' ∧ c ≠ '['

instance (chars : List Char) : Decidable (Plain chars) :=
  List.decidableBAll (fun c => c ≠ '*' ∧ c ≠ '?' ∧ c ≠ '[') chars

/-- A text without special characters is a pattern of itself. -/
theorem parseFrom_plain {chars : List Char} (h : Plain chars) :
    parseFrom 0 chars = some (chars.map .char) := by
  induction chars with
  | nil => rfl
  | cons c chars ih =>
      obtain ⟨⟨hstar, hmark, hopen⟩, hchars⟩ := List.forall_mem_cons.mp h
      rw [parseFrom, if_neg hmark, if_neg hstar, if_neg hopen, ih hchars]
      rfl

/-- The names among the components are plain. -/
def PlainNames (path : PathBuf) : Prop :=
  ∀ name, .normal name ∈ path → Plain name.toList

/-- A text without metacharacters matches itself alone. -/
theorem matchesName_plain (name : String) :
    matchesName (name.toList.map .char) = fun c => decide (c = .normal name) := by
  funext c
  cases c with
  | normal other =>
      have hitems : (name.toList.map PatternToken.char).map PatternToken.item =
          name.toList.map exactly := by
        rw [List.map_map]
        rfl
      have hfits : fits (name.toList.map exactly) other.toList ↔ other = name := by
        have hstart : fits (name.toList.map exactly ++ []) other.toList ↔
            ∃ r, other.toList = name.toList ++ r ∧ fits [] r := fits_exactly_append name.toList
        rw [List.append_nil] at hstart
        rw [hstart, ← String.toList_inj]
        simp [fits]
      rw [matchesName, hitems, Bool.eq_iff_iff, hfits]
      simp
  | _ => rfl

/-- A component without metacharacters is matched exactly. -/
theorem componentItem_plain {c : Component} (h : ∀ name, c = .normal name → Plain name.toList) :
    componentItem c = some (exactly c) := by
  cases c with
  | normal name =>
      have hplain := h name rfl
      have hne : name ≠ "**" := by
        rintro rfl
        exact (hplain '*' (by decide)).1 rfl
      rw [componentItem, if_neg hne, parseFrom_plain hplain, Option.map_some,
        matchesName_plain]
      rfl
  | _ => rfl

/-- Plain names are patterns that match exactly themselves. -/
theorem mapM_componentItem_plain {start : PathBuf} (h : PlainNames start) :
    start.mapM componentItem = some (start.map exactly) := by
  induction start with
  | nil => rfl
  | cons c start ih =>
      have hc : componentItem c = some (exactly c) := by
        refine componentItem_plain ?_
        rintro name rfl
        exact h name List.mem_cons_self
      rw [List.mapM_cons, hc, ih fun name hname => h name (List.mem_cons_of_mem c hname)]
      rfl

/-- **A plain start is taken literally.** -/
theorem matchesGlob_plain_append {start pattern path : PathBuf} (h : PlainNames start) :
    matchesGlob (start ++ pattern) path ↔ ∃ q, path = start ++ q ∧ matchesGlob pattern q := by
  rw [matchesGlob, List.mapM_append, mapM_componentItem_plain h]
  cases hitems : pattern.mapM componentItem with
  | none => simp [matchesGlob, hitems]
  | some items => simpa [matchesGlob, hitems] using fits_exactly_append start

/-! ## Patterns that match one path only -/

/-- A bracket expression takes at least two characters, so the parser moves on. -/
theorem length_readMembers {chars : List Char} {specs : List CharSpecifier} {n : ℕ}
    (h : readMembers chars = some (specs, n)) : 2 ≤ n := by
  cases chars with
  | nil => cases h
  | cons first rest =>
      rw [readMembers] at h
      split_ifs at h
      cases h
      omega

/-- A class takes at least its two brackets. -/
theorem length_readClass {chars : List Char} {token : PatternToken} {n : ℕ}
    (h : readClass chars = some (token, n)) : 2 ≤ n := by
  unfold readClass at h
  split at h
  · obtain ⟨⟨specs, k⟩, hmembers, heq⟩ := Option.map_eq_some_iff.mp h
    have := length_readMembers hmembers
    cases heq
    omega
  · obtain ⟨⟨specs, k⟩, hmembers, heq⟩ := Option.map_eq_some_iff.mp h
    have := length_readMembers hmembers
    cases heq
    omega

/-- The token that a character outside of classes is read as. -/
def PatternToken.ofChar (c : Char) : PatternToken :=
  if c = '?' then .anyChar else if c = '*' then .anySequence else .char c

/-- The first step of reading a name: a character by itself, or a class. -/
theorem parseFrom_cons {c : Char} {chars : List Char} {tokens : List PatternToken}
    (h : parseFrom 0 (c :: chars) = some tokens) :
    (c ≠ '[' ∧ ∃ rest, parseFrom 0 chars = some rest ∧ tokens = .ofChar c :: rest) ∨
    (c = '[' ∧ ∃ token n rest, readClass chars = some (token, n) ∧
      parseFrom n chars = some rest ∧ tokens = token :: rest) := by
  rw [parseFrom] at h
  by_cases hmark : c = '?'
  · rw [if_pos hmark] at h
    obtain ⟨rest, hrest, rfl⟩ := Option.map_eq_some_iff.mp h
    exact .inl ⟨by simp [hmark], rest, hrest, by simp [PatternToken.ofChar, hmark]⟩
  rw [if_neg hmark] at h
  by_cases hstar : c = '*'
  · rw [if_pos hstar] at h
    split_ifs at h
    obtain ⟨rest, hrest, rfl⟩ := Option.map_eq_some_iff.mp h
    exact .inl ⟨by simp [hstar], rest, hrest, by simp [PatternToken.ofChar, hstar]⟩
  rw [if_neg hstar] at h
  by_cases hopen : c = '['
  · rw [if_pos hopen] at h
    obtain ⟨⟨token, n⟩, hclass, h⟩ := Option.bind_eq_some_iff.mp h
    obtain ⟨rest, hrest, rfl⟩ := Option.map_eq_some_iff.mp h
    exact .inr ⟨hopen, token, n, rest, hclass, hrest, rfl⟩
  · rw [if_neg hopen] at h
    obtain ⟨rest, hrest, rfl⟩ := Option.map_eq_some_iff.mp h
    exact .inl ⟨hopen, rest, hrest, by simp [PatternToken.ofChar, hmark, hstar]⟩

/-- A pattern has at most as many tokens as characters. -/
theorem length_parseFrom {skip : ℕ} {chars : List Char} {tokens : List PatternToken}
    (h : parseFrom skip chars = some tokens) : tokens.length ≤ chars.length - skip := by
  induction chars generalizing skip tokens with
  | nil =>
      rw [parseFrom] at h
      cases h
      simp
  | cons c chars ih =>
      cases skip with
      | succ skip =>
          have := ih h
          rw [List.length_cons]
          omega
      | zero =>
          rw [List.length_cons]
          rcases parseFrom_cons h with ⟨-, rest, hrest, rfl⟩ | ⟨-, token, n, rest, -, hrest, rfl⟩
          · have := ih hrest
            rw [List.length_cons]
            omega
          · have := ih hrest
            rw [List.length_cons]
            omega

/-- A pattern with as many tokens as characters holds no class. -/
theorem parseFrom_of_length {chars : List Char} {tokens : List PatternToken}
    (h : parseFrom 0 chars = some tokens) (hlength : tokens.length = chars.length) :
    '[' ∉ chars ∧ tokens = chars.map .ofChar := by
  induction chars generalizing tokens with
  | nil =>
      rw [parseFrom] at h
      cases h
      exact ⟨List.not_mem_nil, rfl⟩
  | cons c chars ih =>
      rcases parseFrom_cons h with
        ⟨hopen, rest, hrest, rfl⟩ | ⟨-, token, n, rest, hclass, hrest, rfl⟩
      · obtain ⟨hmem, rfl⟩ := ih hrest (by simpa using hlength)
        refine ⟨?_, rfl⟩
        rw [List.mem_cons]
        exact not_or.mpr ⟨Ne.symm hopen, hmem⟩
      · -- the class takes at least two of the characters after the bracket
        have hn := length_readClass hclass
        have hle := length_parseFrom hrest
        rw [List.length_cons, List.length_cons] at hlength
        cases chars with
        | nil => cases hclass
        | cons b chars =>
            rw [List.length_cons] at hle hlength
            omega

/-! ### Names -/

section Names

variable {style : PathStyle} {name other : String} {tokens : List PatternToken}

/-- Characters that a name may hold make a file name, when one of them is no dot. -/
theorem FileName.ofList {chars : List Char} {c : Char} (hc : c ∈ chars) (hdot : c ≠ '.')
    (hsep : ∀ d ∈ chars, style.isSep d = false) (hcolon : style = .windows → ':' ∉ chars) :
    FileName style (String.ofList chars) := by
  have hne : ∀ text : String, c ∉ text.toList → String.ofList chars ≠ text := by
    rintro text htext rfl
    exact htext (by rwa [String.toList_ofList])
  refine ⟨hne "" (by simp), hne "." (by simpa using hdot), hne ".." (by simpa using hdot), ?_, ?_⟩
  · rwa [String.toList_ofList]
  · rwa [String.toList_ofList]

/-- A letter put into a file name, or in place of one of its characters, leaves a file name. -/
theorem FileName.withLetter {l r : List Char} {a : Char} (h : FileName style name)
    (hl : l ++ r ⊆ name.toList) (hdot : a ≠ '.') (hsep : style.isSep a = false)
    (hcolon : a ≠ ':') : FileName style (String.ofList (l ++ a :: r)) := by
  have hchars : ∀ c ∈ l ++ a :: r, c = a ∨ c ∈ name.toList := by
    intro c hc
    rcases List.mem_append.mp hc with hc | hc
    · exact .inr (hl (List.mem_append_left r hc))
    · rcases List.mem_cons.mp hc with hc | hc
      · exact .inl hc
      · exact .inr (hl (List.mem_append_right l hc))
  refine .ofList (List.mem_append_right l List.mem_cons_self) hdot ?_ ?_
  · intro c hc
    rcases hchars c hc with rfl | hc
    · exact hsep
    · exact h.noSep c hc
  · intro hstyle hmem
    rcases hchars ':' hmem with heq | hmem
    · exact hcolon heq.symm
    · exact h.noColon hstyle hmem

/-- The tokens match this file name and no other. -/
structure MatchesOnly (style : PathStyle) (tokens : List PatternToken) (name : String) : Prop where
  fileName : FileName style name
  self : fits (tokens.map PatternToken.item) name.toList
  only : ∀ other, FileName style other →
    fits (tokens.map PatternToken.item) other.toList → other = name

/-- A pattern that matches one name alone has no wildcard. -/
theorem MatchesOnly.isOne (h : MatchesOnly style tokens name) :
    ∀ item ∈ tokens.map PatternToken.item, item.isOne := by
  intro item hitem
  cases item with
  | one test => rfl
  | many test =>
      -- a further letter would fit the gap
      have htest : test 'x' := by
        obtain ⟨token, -, heq⟩ := List.mem_map.mp hitem
        cases token <;> cases heq
        rfl
      obtain ⟨l, r, heq, hfits⟩ := fits_insert hitem h.self htest
      have hname : FileName style (String.ofList (l ++ 'x' :: r)) :=
        h.fileName.withLetter (fun c hc => heq ▸ hc) (by decide) (by cases style <;> decide)
          (by decide)
      have hsame := h.only _ hname (by rwa [String.toList_ofList])
      have hlength := congrArg List.length heq
      rw [← hsame, String.toList_ofList] at hlength
      simp at hlength

theorem MatchesOnly.length (h : MatchesOnly style tokens name) :
    name.toList.length = tokens.length := by
  have := (fits_iff_forall₂ h.isOne).mp h.self
  rw [← this.length_eq, List.length_map]

/-- A name that a pattern written like it matches, and no other name, is plain. -/
theorem MatchesOnly.plain (h : MatchesOnly style tokens name)
    (hparse : parseFrom 0 name.toList = some tokens) : Plain name.toList := by
  obtain ⟨hopen, htokens⟩ := parseFrom_of_length hparse h.length.symm
  intro c hc
  have hmem : PatternToken.item (.ofChar c) ∈ tokens.map PatternToken.item := by
    rw [htokens]
    exact List.mem_map_of_mem (List.mem_map_of_mem hc)
  refine ⟨?_, ?_, fun heq => hopen (heq ▸ hc)⟩
  · rintro rfl
    exact absurd (h.isOne _ hmem) (by decide)
  · rintro rfl
    -- `?` takes any letter
    obtain ⟨l, b, r, heq, hfits⟩ := fits_replace hmem h.self
    have hsame : ∀ a, a ≠ '.' → style.isSep a = false → a ≠ ':' → a = b := by
      intro a hdot hsep hcolon
      have hname : FileName style (String.ofList (l ++ a :: r)) := by
        refine h.fileName.withLetter (fun c hc => ?_) hdot hsep hcolon
        rw [heq]
        rcases List.mem_append.mp hc with hc | hc
        · exact List.mem_append_left _ hc
        · exact List.mem_append_right _ (List.mem_cons_of_mem b hc)
      have hother := h.only _ hname (by rw [String.toList_ofList]; exact hfits a rfl)
      rw [← hother, String.toList_ofList] at heq
      simpa using heq
    have hx := hsame 'x' (by decide) (by cases style <;> decide) (by decide)
    have hy := hsame 'y' (by decide) (by cases style <;> decide) (by decide)
    exact absurd (hx.trans hy.symm) (by decide)

end Names

/-! ### Paths -/

section Paths

variable {style : PathStyle} {pattern path : PathBuf}

/-- The names along the path are names that files can have. -/
def FilePath (style : PathStyle) (path : PathBuf) : Prop :=
  ∀ name, .normal name ∈ path → FileName style name

theorem FilePath.append {rest : PathBuf} (h : FilePath style path) (hrest : FilePath style rest) :
    FilePath style (path ++ rest) := by
  intro name hname
  rcases List.mem_append.mp hname with hname | hname
  · exact h name hname
  · exact hrest name hname

theorem FilePath.singleton {name : String} (h : FileName style name) :
    FilePath style [.normal name] := by
  intro other hother
  obtain rfl := Component.normal.inj (List.mem_singleton.mp hother)
  exact h

/-- A loop that succeeds returns the results of its body. -/
theorem map_of_mapM {α β : Type} {f : α → Option β} {xs : List α} {ys : List β}
    (h : xs.mapM f = some ys) : xs.map f = ys.map some := by
  induction xs generalizing ys with
  | nil =>
      obtain rfl : [] = ys := Option.some.inj h
      rfl
  | cons x xs ih =>
      rw [List.mapM_cons] at h
      obtain ⟨y, hy, h⟩ := Option.bind_eq_some_iff.mp h
      obtain ⟨ys', hys, h⟩ := Option.bind_eq_some_iff.mp h
      obtain rfl : y :: ys' = ys := Option.some.inj h
      rw [List.map_cons, List.map_cons, hy, ih hys]

/-- The component of a pattern is met by this component and no other. -/
def MeetsOnly (style : PathStyle) (c a : Component) : Prop :=
  ∃ item, componentItem c = some item ∧ item.Takes a ∧
    ∀ b, FilePath style [b] → item.Takes b → b = a

/-- A pattern that matches one file path only has no `**`, and each of its components is met
by one name only. -/
theorem meetsOnly_of_only (hpath : FilePath style path)
    (honly : ∀ p, FilePath style p → (matchesGlob pattern p ↔ p = path)) :
    List.Forall₂ (MeetsOnly style) pattern path := by
  have hself := (honly path hpath).mpr rfl
  obtain ⟨items, hitems⟩ : ∃ items, pattern.mapM componentItem = some items := by
    cases h : pattern.mapM componentItem with
    | none => simp [matchesGlob, h] at hself
    | some items => exact ⟨items, rfl⟩
  have hmatches : ∀ p, matchesGlob pattern p = fits items p := by
    intro p
    rw [matchesGlob, hitems]
  have hmap := map_of_mapM hitems
  rw [hmatches] at hself
  have hone : ∀ item ∈ items, item.isOne := by
    intro item hitem
    cases item with
    | one test => rfl
    | many test =>
        -- `**` takes a further name
        have htest : test (.normal "x") := by
          obtain ⟨c, -, hc⟩ := List.mem_map.mp (hmap ▸ List.mem_map_of_mem hitem)
          cases c with
          | normal name =>
              rw [componentItem] at hc
              split_ifs at hc
              · cases hc
                rfl
              · obtain ⟨tokens, -, heq⟩ := Option.map_eq_some_iff.mp hc
                cases heq
          | _ => cases hc
        obtain ⟨l, r, rfl, hfits⟩ := fits_insert hitem hself htest
        have hname : FileName style "x" := isFileName_iff.mp (by cases style <;> decide)
        have hfile : FilePath style (l ++ .normal "x" :: r) := by
          intro name hmem
          rcases List.mem_append.mp hmem with hmem | hmem
          · exact hpath name (List.mem_append_left r hmem)
          · rcases List.mem_cons.mp hmem with heq | hmem
            · exact Component.normal.inj heq ▸ hname
            · exact hpath name (List.mem_append_right l hmem)
        have hsame := (honly _ hfile).mp (by rwa [hmatches])
        have hlength := congrArg List.length hsame
        simp at hlength
  have htakes : List.Forall₂ (fun item a =>
      item.Takes a ∧ ∀ b, FilePath style [b] → item.Takes b → b = a) items path := by
    refine takes_only hone ?_ hself ?_
    · intro a ha name hname
      exact hpath name (List.mem_singleton.mp hname ▸ ha)
    · intro t ht hfits
      refine (honly t fun name hname => ?_).mp (by rwa [hmatches])
      exact ht _ hname name List.mem_cons_self
  have hitemsOnly : List.Forall₂ (fun item a => ∃ i, item = some i ∧ i.Takes a ∧
      ∀ b, FilePath style [b] → i.Takes b → b = a) (items.map some) path :=
    List.forall₂_map_left_iff.mpr (htakes.imp fun item a h => ⟨item, rfl, h⟩)
  rw [← hmap, List.forall₂_map_left_iff] at hitemsOnly
  exact hitemsOnly

/-- A component of a pattern meets one name alone, or is no name itself. -/
theorem MeetsOnly.cases {c a : Component} (h : MeetsOnly style c a) (ha : FilePath style [a]) :
    (∃ name other tokens, c = .normal name ∧ a = .normal other ∧
      parseFrom 0 name.toList = some tokens ∧ MatchesOnly style tokens other) ∨
    (a = c ∧ c.isNormal = false) := by
  obtain ⟨item, hitem, ⟨test, rfl, htest⟩, honly⟩ := h
  cases c with
  | normal name =>
      rw [componentItem] at hitem
      by_cases hstars : name = "**"
      · rw [if_pos hstars] at hitem
        cases hitem
      rw [if_neg hstars] at hitem
      obtain ⟨tokens, htokens, heq⟩ := Option.map_eq_some_iff.mp hitem
      obtain rfl := Item.one.inj heq
      cases a with
      | normal other =>
          refine .inl ⟨name, other, tokens, rfl, rfl, htokens, ha other List.mem_cons_self,
            htest, fun m hm hfits => ?_⟩
          exact Component.normal.inj (honly (.normal m) (.singleton hm) ⟨_, rfl, hfits⟩)
      | _ => cases htest
  | _ =>
      obtain rfl := Item.one.inj (Option.some.inj hitem)
      exact .inr ⟨of_decide_eq_true htest, rfl⟩

/-- **Only plain paths match themselves alone.** -/
theorem plain_of_only (hpath : FilePath style path)
    (honly : ∀ p, FilePath style p → (matchesGlob path p ↔ p = path)) : PlainNames path := by
  intro name hname
  have hmeets := List.forall₂_same.mp (meetsOnly_of_only hpath honly) _ hname
  rcases hmeets.cases (.singleton (hpath name hname)) with
    ⟨_, _, tokens, heq, heq', hparse, hmatches⟩ | ⟨-, hnormal⟩
  · cases heq
    cases heq'
    exact hmatches.plain hparse
  · cases hnormal

/-- How many characters a component's name has. -/
def Component.weight : Component → ℕ
  | .normal name => name.toList.length
  | _ => 0

/-- A pattern that matches one file path only is at least as long, name by name. -/
theorem weight_le_of_only (hpath : FilePath style path)
    (honly : ∀ p, FilePath style p → (matchesGlob pattern p ↔ p = path)) :
    (path.map Component.weight).sum ≤ (pattern.map Component.weight).sum := by
  have hmeets := meetsOnly_of_only hpath honly
  clear honly
  induction hmeets with
  | nil => exact le_rfl
  | @cons c a pattern path hmeets _ ih =>
      have ha : FilePath style [a] := fun name hname =>
        hpath name (List.mem_singleton.mp hname ▸ List.mem_cons_self)
      have hweight : a.weight ≤ c.weight := by
        rcases hmeets.cases ha with ⟨name, other, tokens, rfl, rfl, hparse, hmatches⟩ | ⟨rfl, -⟩
        · have := length_parseFrom hparse
          rwa [← hmatches.length] at this
        · exact le_rfl
      have := ih fun name hname => hpath name (List.mem_cons_of_mem a hname)
      rw [List.map_cons, List.map_cons, List.sum_cons, List.sum_cons]
      omega

end Paths

end Savr
