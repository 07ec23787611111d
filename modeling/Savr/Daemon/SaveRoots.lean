import Savr.Core.Collect
import Savr.Core.PathText
import Savr.Daemon.Paths

/-!
# Save roots

`resolve_custom` of `savr-daemon/src/paths.rs`, and what becomes of a directory that stands
at the start of a pattern: the install directory, the home directory, a Steam library or the
save root of a hand-registered game.  All four are spliced into the pattern as they are
written.

A glob behind a directory adds its own names and changes nothing before them
(`components_spliced`).  What is left is a question about the pattern language: a directory
is taken literally exactly when its text holds nothing that a pattern or the code reads as
more than itself.

## Main results

* `takenLiterally_iff` — when a directory name is taken literally.
-/

namespace Savr

open Wildcard

/-! ## Hand-registered games -/

/-- The save root with `/` as separator and none at its end. -/
def customRoot (saveRoot : String) : String :=
  String.ofList ((slashed saveRoot).toList.rdropWhile (· = '/'))

/-- `resolve_custom`. -/
def resolveCustom (style : PathStyle) (saveRoot : String) (includes excludes : List String) :
    ResolvedGame :=
  let root := customRoot saveRoot
  let includes := if includes.isEmpty then ["**/*"] else includes.map slashed
  { patterns     := includes.map fun g =>
      root ++ "/" ++ String.ofList (g.toList.dropWhile (· = '/'))
    registryKeys := []
    anchor       := components style root
    excludes     := excludes.map slashed }
theorem toList_slashed (text : String) : (slashed text).toList = text.toList.map slash := by
  rw [slashed, String.toList_ofList]
  rfl

section Root

variable {style : PathStyle} {volume rest : List Char} {head : PathBuf} {d g : String}

/-- The directory that a save root is read as, with the text of a glob behind it. -/
theorem components_customRoot (hchars : d.toList = volume ++ rest)
    (hvolume : Volume style volume head) (hrest : AtSep style rest) :
    components style (customRoot d ++ "/" ++ g) =
      head ++ segmentsOf style (rest.map slash) ++ segmentsOf style g.toList := by
  have htext : customRoot d ++ "/" ++ g = String.ofList
      (volume.map slash ++ (rest.map slash).rdropWhile (· = '/') ++ '/' :: g.toList) := by
    rw [← String.toList_inj, String.toList_ofList, customRoot, toList_slashed, hchars,
      List.map_append, hvolume.map_slash.rdropWhile_append, String.toList_append,
      String.toList_append, String.toList_ofList]
    simp
  rw [htext, hvolume.map_slash.components_slash
    (hrest.map_slash.of_starts (List.rdropWhile_prefix _ _)), segmentsOf_rdropWhile]

end Root

/-! ## Filling a template -/

section Templates

variable {pattern value chars : List Char} {roots : Roots} {base : Option String}

theorem hasText_cons (c : Char) :
    hasText pattern (c :: chars) = (pattern.isPrefixOf (c :: chars) || hasText pattern chars) := by
  rw [hasText, List.tails_cons, List.any_cons]
  rfl

/-- Where no `<` stands there is no placeholder. -/
theorem hasText_of_not_mem (hpattern : pattern.head? = some '<') (h : '<' ∉ chars) :
    hasText pattern chars = false := by
  obtain ⟨more, rfl⟩ := List.head?_eq_some_iff.mp hpattern
  induction chars with
  | nil => rfl
  | cons c chars ih =>
      obtain ⟨hc, hchars⟩ := not_or.mp (mt List.mem_cons.mpr h)
      rw [hasText_cons, ih hchars, List.isPrefixOf_cons_cons, beq_eq_false_iff_ne.mpr hc]
      rfl

/-- A text without `<` has no placeholder to replace. -/
theorem replaceFrom_of_not_mem (hpattern : pattern.head? = some '<') (h : '<' ∉ chars) :
    replaceFrom pattern value 0 chars = chars := by
  obtain ⟨more, rfl⟩ := List.head?_eq_some_iff.mp hpattern
  induction chars with
  | nil => rfl
  | cons c chars ih =>
      obtain ⟨hc, hchars⟩ := not_or.mp (mt List.mem_cons.mpr h)
      rw [replaceFrom, List.isPrefixOf_cons_cons, beq_eq_false_iff_ne.mpr hc, Bool.false_and,
        if_neg (by simp), ih hchars]

/-- A text that is filled in where its placeholder stands is there afterwards. -/
theorem mem_replaceFrom {c : Char} (hc : c ∈ value) (h : hasText pattern chars)
    (hpattern : pattern ≠ []) : c ∈ replaceFrom pattern value 0 chars := by
  induction chars with
  | nil =>
      cases pattern with
      | nil => exact absurd rfl hpattern
      | cons a pattern => cases h
  | cons d chars ih =>
      rw [replaceFrom]
      by_cases hstart : pattern.isPrefixOf (d :: chars)
      · rw [if_pos hstart]
        exact List.mem_append_left _ hc
      · rw [if_neg hstart]
        rw [hasText_cons, Bool.or_eq_true] at h
        exact List.mem_cons_of_mem d (ih (h.resolve_left hstart))

/-- One placeholder of `resolve`. -/
def fillPlaceholder (out : String) (entry : String × Option String) : Option String :=
  if hasText entry.1.toList out.toList then entry.2.map fun value => replaceText entry.1 value out
  else some out

theorem resolveTemplate_eq (template : String) : resolveTemplate template roots base =
    ((placeholders roots base).foldlM fillPlaceholder template).bind fun out =>
      if '<' ∈ out.toList then none else some out := rfl

theorem head_placeholder : ∀ entry ∈ placeholders roots base,
    entry.1.toList.head? = some '<' := by
  intro entry hentry
  simp only [placeholders, List.mem_cons, List.not_mem_nil, or_false] at hentry
  rcases hentry with rfl | rfl | rfl | rfl | rfl | rfl | rfl | rfl <;> simp

/-- A text without `<` is left as it is by every placeholder. -/
theorem foldlM_filled {entries : List (String × Option String)} {out : String}
    (hentries : ∀ entry ∈ entries, entry.1.toList.head? = some '<') (hout : '<' ∉ out.toList) :
    entries.foldlM fillPlaceholder out = some out := by
  induction entries with
  | nil => rfl
  | cons entry entries ih =>
      obtain ⟨hentry, hentries⟩ := List.forall_mem_cons.mp hentries
      rw [List.foldlM_cons, fillPlaceholder, hasText_of_not_mem hentry hout, if_neg (by simp)]
      exact ih hentries

/-- Filling in texts that hold a `<` leaves a `<`. -/
theorem foldlM_unfilled {entries : List (String × Option String)} {out filled : String}
    (hentries : ∀ entry ∈ entries, entry.1.toList.head? = some '<')
    (hvalues : ∀ entry ∈ entries, ∀ value, entry.2 = some value → '<' ∈ value.toList)
    (hout : '<' ∈ out.toList) (h : entries.foldlM fillPlaceholder out = some filled) :
    '<' ∈ filled.toList := by
  induction entries generalizing out with
  | nil =>
      obtain rfl := Option.some.inj h
      exact hout
  | cons entry entries ih =>
      obtain ⟨hentry, hentries⟩ := List.forall_mem_cons.mp hentries
      obtain ⟨hvalue, hvalues⟩ := List.forall_mem_cons.mp hvalues
      rw [List.foldlM_cons] at h
      obtain ⟨next, hnext, h⟩ := Option.bind_eq_some_iff.mp h
      refine ih hentries hvalues ?_ h
      rw [fillPlaceholder] at hnext
      split_ifs at hnext with hhas
      · obtain ⟨value, hsome, rfl⟩ := Option.map_eq_some_iff.mp hnext
        rw [replaceText, String.toList_ofList]
        refine mem_replaceFrom (hvalue value hsome) hhas ?_
        intro hnil
        rw [hnil] at hentry
        cases hentry
      · obtain rfl := Option.some.inj hnext
        exact hout

end Templates

/-! ## Directories in patterns -/

/-- Where a directory stands at the start of a pattern. -/
inductive Place
  | installDir
  | home
  | steamRoot
  | saveRoot
  deriving DecidableEq, Repr

/-- What a machine fills the other placeholders with. -/
structure Fillings where
  roots : Roots
  base : Option String
  lib : SteamLibrary

/-- The patterns of the template `<base>/g`, `<home>/g` or `<root>/g`, or of the include glob
`g`, where the directory is `d`. -/
def Place.patterns (style : PathStyle) (f : Fillings) (d g : String) : Place → List String
  | .installDir => (resolveTemplate ("<base>" ++ "/" ++ g) f.roots (some d)).toList
  | .home => (resolveTemplate ("<home>" ++ "/" ++ g) { f.roots with home := d } f.base).toList
  | .steamRoot =>
      (expandSteamPlaceholders ("<root>" ++ "/" ++ g) [{ f.lib with path := d }]).filterMap
        fun concrete => resolveTemplate concrete f.roots f.base
  | .saveRoot => (resolveCustom style d [g] []).patterns

/-- The code keeps the text of a glob or of a directory as it is: templates are searched for
`<`, and hand-registered globs have their `\` replaced. -/
def Place.Keeps (style : PathStyle) (chars : List Char) : Place → Prop
  | .saveRoot => Separated style chars
  | _ => '<' ∉ chars

instance (style : PathStyle) (chars : List Char) : (place : Place) →
    Decidable (place.Keeps style chars)
  | .saveRoot => inferInstanceAs (Decidable (style = .windows ∨ '\\' ∉ chars))
  | .installDir | .home | .steamRoot => inferInstanceAs (Decidable ('<' ∉ chars))

section Places

variable {style : PathStyle} {f : Fillings} {d g : String} {place : Place}

theorem replaceFrom_skip (pattern value l rest : List Char) :
    replaceFrom pattern value l.length (l ++ rest) = replaceFrom pattern value 0 rest := by
  induction l with
  | nil => rfl
  | cons c l ih => rw [List.length_cons, List.cons_append, replaceFrom, ih]

/-- A placeholder at the start of a text without others. -/
theorem replaceFrom_leading {pattern rest : List Char} (value : List Char)
    (hpattern : pattern.head? = some '<') (hrest : '<' ∉ rest) :
    replaceFrom pattern value 0 (pattern ++ rest) = value ++ rest := by
  obtain ⟨more, rfl⟩ := List.head?_eq_some_iff.mp hpattern
  have hstart : ('<' :: more).isPrefixOf ('<' :: (more ++ rest)) := by
    rw [List.isPrefixOf_iff_prefix]
    exact List.prefix_append ('<' :: more) rest
  rw [List.cons_append, replaceFrom, if_pos hstart, List.length_cons, Nat.add_sub_cancel,
    replaceFrom_skip, replaceFrom_of_not_mem hpattern hrest]

theorem hasText_leading {pattern rest : List Char} (hpattern : pattern.head? = some '<') :
    hasText pattern (pattern ++ rest) := by
  obtain ⟨more, rfl⟩ := List.head?_eq_some_iff.mp hpattern
  rw [List.cons_append, hasText_cons, Bool.or_eq_true, List.isPrefixOf_iff_prefix]
  exact .inl (List.prefix_append ('<' :: more) rest)

/-- Only the start of such a text may be a placeholder. -/
theorem hasText_marked {pattern rest : List Char} (hrest : '<' ∉ rest) :
    hasText ('<' :: pattern) ('<' :: rest) = pattern.isPrefixOf rest := by
  rw [hasText_cons, hasText_of_not_mem rfl hrest, Bool.or_false, List.isPrefixOf_cons_cons]
  simp

theorem replaceText_leading {placeholder : String}
    (hplaceholder : placeholder.toList.head? = some '<') (hg : '<' ∉ g.toList) :
    replaceText placeholder d (placeholder ++ "/" ++ g) = d ++ "/" ++ g := by
  have hrest : '<' ∉ ("/" ++ g).toList := by simpa using hg
  rw [← String.toList_inj, replaceText, String.toList_ofList, String.append_assoc,
    String.toList_append, replaceFrom_leading _ hplaceholder hrest, String.append_assoc,
    String.toList_append (s := d)]

/-- A text without `<` is resolved as it is. -/
theorem resolveTemplate_plain (roots : Roots) (base : Option String) {text : String}
    (h : '<' ∉ text.toList) : resolveTemplate text roots base = some text := by
  rw [resolveTemplate_eq, foldlM_filled head_placeholder h, Option.bind_some, if_neg h]

/-- A template that starts with its only placeholder, where the placeholders before that one
are others. -/
theorem resolveTemplate_leading (roots : Roots) (base : Option String)
    (before : List (String × Option String)) {after : List (String × Option String)}
    {placeholder : String}
    (hentries : placeholders roots base = before ++ (placeholder, some d) :: after)
    (hbefore : ∀ entry ∈ before,
      hasText entry.1.toList (placeholder ++ "/" ++ g).toList = false)
    (hd : '<' ∉ d.toList) (hg : '<' ∉ g.toList) :
    resolveTemplate (placeholder ++ "/" ++ g) roots base = some (d ++ "/" ++ g) := by
  have hheads := hentries ▸ @head_placeholder roots base
  have hplaceholder := hheads (placeholder, some d)
    (List.mem_append_right before List.mem_cons_self)
  have hskip : before.foldlM fillPlaceholder (placeholder ++ "/" ++ g) =
      some (placeholder ++ "/" ++ g) := by
    clear hentries hheads
    induction before with
    | nil => rfl
    | cons entry before ih =>
        obtain ⟨hentry, hbefore⟩ := List.forall_mem_cons.mp hbefore
        rw [List.foldlM_cons, fillPlaceholder, hentry, if_neg (by simp)]
        exact ih hbefore
  have hfill : fillPlaceholder (placeholder ++ "/" ++ g) (placeholder, some d) =
      some (d ++ "/" ++ g) := by
    have hhas : hasText placeholder.toList (placeholder ++ "/" ++ g).toList := by
      rw [String.append_assoc, String.toList_append]
      exact hasText_leading hplaceholder
    rw [fillPlaceholder, if_pos hhas, Option.map_some, replaceText_leading hplaceholder hg]
  have hout : '<' ∉ (d ++ "/" ++ g).toList := by
    simp [hd, hg]
  rw [resolveTemplate_eq, hentries, List.foldlM_append, hskip]
  change ((((placeholder, some d) :: after).foldlM fillPlaceholder _).bind _) = _
  rw [List.foldlM_cons, hfill]
  change ((after.foldlM fillPlaceholder _).bind _) = _
  rw [foldlM_filled (fun entry hentry => hheads entry
    (List.mem_append_right before (List.mem_cons_of_mem _ hentry))) hout, Option.bind_some,
    if_neg hout]

theorem hasText_base (hg : '<' ∉ g.toList) :
    hasText "<base>".toList ("<home>" ++ "/" ++ g).toList = false := by
  have htext : ("<home>" ++ "/" ++ g).toList =
      '<' :: ('h' :: 'o' :: 'm' :: 'e' :: '>' :: '/' :: g.toList) := by simp
  have hpattern : "<base>".toList = '<' :: ['b', 'a', 's', 'e', '>'] := by simp
  rw [htext, hpattern, hasText_marked (by simpa using hg)]
  rfl

/-- The placeholder of the library is filled in. -/
theorem expand_root {lib : SteamLibrary} (hg : '<' ∉ g.toList) :
    expandSteamPlaceholders ("<root>" ++ "/" ++ g) [lib] = [lib.path ++ "/" ++ g] := by
  have hroot : hasText "<root>".toList ("<root>" ++ "/" ++ g).toList := by
    rw [String.append_assoc, String.toList_append]
    exact hasText_leading (by simp)
  have huid : hasText "<storeUserId>".toList ("<root>" ++ "/" ++ g).toList = false := by
    have htext : ("<root>" ++ "/" ++ g).toList =
        '<' :: ('r' :: 'o' :: 'o' :: 't' :: '>' :: '/' :: g.toList) := by simp
    have hpattern : "<storeUserId>".toList =
        '<' :: ['s', 't', 'o', 'r', 'e', 'U', 's', 'e', 'r', 'I', 'd', '>'] := by simp
    rw [htext, hpattern, hasText_marked (by simpa using hg)]
    rfl
  have hreplace : replaceText "<root>" lib.path ("<root>" ++ "/" ++ g) = lib.path ++ "/" ++ g :=
    replaceText_leading (by simp) hg
  rw [← hreplace]
  simp only [expandSteamPlaceholders, hroot, huid]
  rfl

/-- **The pattern of a directory and a glob** that the code does not rewrite. -/
theorem patterns_of_keeps (hplace : place ≠ .saveRoot) (hd : place.Keeps style d.toList)
    (hg : place.Keeps style g.toList) : place.patterns style f d g = [d ++ "/" ++ g] := by
  cases place with
  | installDir =>
      rw [Place.patterns, resolveTemplate_leading f.roots (some d) [] rfl (by simp) hd hg]
      rfl
  | home =>
      have hbefore : ∀ entry ∈ [("<base>", f.base)],
          hasText entry.1.toList ("<home>" ++ "/" ++ g).toList = false := by
        intro entry hentry
        rw [List.mem_singleton.mp hentry]
        exact hasText_base hg
      rw [Place.patterns, resolveTemplate_leading { f.roots with home := d } f.base
        [("<base>", f.base)] rfl hbefore hd hg]
      rfl
  | steamRoot =>
      have hout : '<' ∉ (d ++ "/" ++ g).toList := by
        have hd' : '<' ∉ d.toList := hd
        have hg' : '<' ∉ g.toList := hg
        simp [hd', hg']
      rw [Place.patterns, expand_root hg]
      simp [resolveTemplate_plain f.roots f.base hout]
  | saveRoot => exact absurd rfl hplace

theorem patterns_saveRoot : Place.saveRoot.patterns style f d g =
    [customRoot d ++ "/" ++ String.ofList ((slashed g).toList.dropWhile (· = '/'))] := rfl

/-- The absolute text of a directory that can exist: files can have its names, and a server
and a share have plain ones. -/
structure Directory (style : PathStyle) (d : String) : Prop where
  absolute : isAbsolute style (components style d)
  names : FilePath style (components style d)
  volume : ∀ server share, .unc server share ∈ components style d →
    Plain (server.toList ++ share.toList)

/-- **Directory names are taken literally.**  Whatever the machine and the glob, the files
that the patterns match are the files in the directory that the glob matches there. -/
def TakenLiterally (style : PathStyle) (place : Place) (d : String) : Prop :=
  ∀ f g, place.Keeps style g.toList → ∀ p, FilePath style p →
    ((∃ pattern ∈ place.patterns style f d g, matchesGlob (components style pattern) p) ↔
      ∃ q, p = components style d ++ q ∧ matchesGlob (segmentsOf style g.toList) q)

/-- The one pattern of a directory that the code keeps: the directory, then the glob. -/
theorem components_pattern (hd : isAbsolute style (components style d))
    (hkeep : place.Keeps style d.toList) (hg : place.Keeps style g.toList) :
    ∃ pattern, place.patterns style f d g = [pattern] ∧
      components style pattern = components style d ++ segmentsOf style g.toList := by
  by_cases hplace : place = .saveRoot
  · subst hplace
    obtain ⟨volume, head, rest, hchars, hvolume, hrest, hcomponents⟩ := exists_volume hd
    have hseparated : Separated style rest := by
      rcases hkeep with h | h
      · exact .inl h
      · exact .inr fun hmem => h (by rw [hchars]; exact List.mem_append_right volume hmem)
    refine ⟨_, patterns_saveRoot, ?_⟩
    rw [components_customRoot hchars hvolume hrest, segmentsOf_slash hseparated, hcomponents,
      String.toList_ofList, segmentsOf_dropWhile, toList_slashed, segmentsOf_slash hg]
  · exact ⟨_, patterns_of_keeps hplace hkeep hg, components_spliced hd⟩

/-- The names of a plain path are plain. -/
theorem plainNames_of_plain (hd : isAbsolute style (components style d))
    (h : Plain d.toList) : PlainNames (components style d) := by
  obtain ⟨volume, head, rest, hchars, hvolume, hrest, hcomponents⟩ := exists_volume hd
  intro name hname
  rw [hcomponents, List.mem_append] at hname
  rcases hname with hname | hname
  · cases hvolume <;> simp at hname
  · intro c hc
    refine h c ?_
    rw [hchars]
    exact List.mem_append_right volume (subset_of_mem_segmentsOf hname hc)

/-- Every character that a pattern reads as more than itself is in a name. -/
theorem plain_of_plainNames (hd : Directory style d) (h : PlainNames (components style d)) :
    Plain d.toList := by
  obtain ⟨volume, head, rest, hchars, hvolume, hrest, hcomponents⟩ := exists_volume hd.absolute
  have hhead : ∀ c ∈ head, c ∈ components style d := by
    intro c hc
    rw [hcomponents]
    exact List.mem_append_left _ hc
  have hsep : ∀ c, PathStyle.windows.isSep c → Plain [c] := by
    intro c hc x hx
    obtain rfl := List.mem_singleton.mp hx
    refine ⟨?_, ?_, ?_⟩ <;>
    · rintro rfl
      exact absurd hc (by decide)
  have hvolumePlain : Plain volume := by
    cases hvolume with
    | unix => exact fun c hc => absurd hc List.not_mem_nil
    | @disk letter alpha =>
        intro c hc
        rcases List.mem_cons.mp hc with rfl | hc
        · refine ⟨?_, ?_, ?_⟩ <;>
          · rintro rfl
            exact absurd alpha (by decide)
        · rw [List.mem_singleton.mp hc]
          decide
    | @share a b c server share ha hb hc hserver hshare hnoSep =>
        have hnames := hd.volume _ _ (hhead _ List.mem_cons_self)
        rw [String.toList_ofList, String.toList_ofList] at hnames
        intro x hx
        simp only [List.mem_cons, List.mem_append] at hx
        rcases hx with rfl | rfl | hx | rfl | hx
        · exact hsep x ha x (List.mem_singleton.mpr rfl)
        · exact hsep x hb x (List.mem_singleton.mpr rfl)
        · exact hnames x (List.mem_append_left _ hx)
        · exact hsep x hc x (List.mem_singleton.mpr rfl)
        · exact hnames x (List.mem_append_right _ hx)
  have hrestPlain : Plain rest := by
    intro c hc
    have hname : style.isSep c = false → c ≠ '.' → c ≠ '*' ∧ c ≠ '?' ∧ c ≠ '[' := by
      intro hnoSep hdot
      obtain ⟨name, hname, hmem⟩ := exists_name_of_mem hc hnoSep hdot
      refine h name ?_ c hmem
      rw [hcomponents]
      exact List.mem_append_right head hname
    refine ⟨?_, ?_, ?_⟩
    · rintro rfl
      exact (hname (by cases style <;> decide) (by decide)).1 rfl
    · rintro rfl
      exact (hname (by cases style <;> decide) (by decide)).2.1 rfl
    · rintro rfl
      exact (hname (by cases style <;> decide) (by decide)).2.2 rfl
  rw [hchars]
  intro c hc
  rcases List.mem_append.mp hc with hc | hc
  · exact hvolumePlain c hc
  · exact hrestPlain c hc

/-! ## When a directory is taken literally -/

/-- A machine whose home directory holds a `<` and that fills in nothing else. -/
def Fillings.unfilled : Fillings where
  roots := ⟨"/<", none, none, none, none, none, none⟩
  base  := none
  lib   := ⟨"", [], [], []⟩

theorem resolveTemplate_unfilled {roots : Roots} {base : Option String} {template : String}
    (hvalues : ∀ entry ∈ placeholders roots base, ∀ value, entry.2 = some value →
      '<' ∈ value.toList) (h : '<' ∈ template.toList) :
    resolveTemplate template roots base = none := by
  rw [resolveTemplate_eq, Option.bind_eq_none_iff]
  intro out hout
  exact if_pos (foldlM_unfilled head_placeholder hvalues h hout)

/-- Where the home directory and the base are marked by a `<`, so is every value that a
placeholder has. -/
theorem marked_placeholders {home : String} {base : Option String} (hhome : '<' ∈ home.toList)
    (hbase : ∀ value, base = some value → '<' ∈ value.toList) :
    ∀ entry ∈ placeholders { Fillings.unfilled.roots with home := home } base,
      ∀ value, entry.2 = some value → '<' ∈ value.toList := by
  rintro entry hentry value hvalue
  simp only [placeholders, Fillings.unfilled, List.mem_cons, List.not_mem_nil, or_false] at hentry
  rcases hentry with rfl | rfl | rfl | rfl | rfl | rfl | rfl | rfl
  · exact hbase value hvalue
  · obtain rfl := Option.some.inj hvalue
    exact hhome
  all_goals cases hvalue

/-- A `<` in a directory of a template leaves no pattern. -/
theorem patterns_unfilled (hplace : place ≠ .saveRoot) (hd : '<' ∈ d.toList) :
    place.patterns style .unfilled d "x" = [] := by
  have hhome : '<' ∈ Fillings.unfilled.roots.home.toList := by decide
  have hnone : ∀ value, Fillings.unfilled.base = some value → '<' ∈ value.toList := by
    rintro value ⟨⟩
  cases place with
  | installDir =>
      have hbase : ∀ value, some d = some value → '<' ∈ value.toList := by
        rintro value heq
        rwa [← Option.some.inj heq]
      rw [Place.patterns,
        resolveTemplate_unfilled (marked_placeholders hhome hbase) (by simp)]
      rfl
  | home =>
      rw [Place.patterns, resolveTemplate_unfilled (marked_placeholders hd hnone) (by simp)]
      rfl
  | steamRoot =>
      have hresolved : resolveTemplate (d ++ "/" ++ "x") Fillings.unfilled.roots
          Fillings.unfilled.base = none :=
        resolveTemplate_unfilled (marked_placeholders hhome hnone) (by simp [hd])
      rw [Place.patterns, expand_root (by simp)]
      simp [hresolved]
  | saveRoot => exact absurd rfl hplace

theorem segmentsOf_x : segmentsOf style "x".toList = [.normal "x"] := by
  cases style <;> decide

theorem fileName_letter : FileName style "x" :=
  isFileName_iff.mp (by cases style <;> decide)

theorem keeps_x : place.Keeps style "x".toList := by
  cases place with
  | saveRoot => exact .inr (by simp)
  | _ => simp [Place.Keeps]

/-- What the law says of the glob `x`: the file of this name in the directory is matched, and
no other. -/
theorem TakenLiterally.only (h : TakenLiterally style place d) {p : PathBuf}
    (hp : FilePath style p) :
    (∃ pattern ∈ place.patterns style .unfilled d "x",
      matchesGlob (components style pattern) p) ↔ p = components style d ++ [.normal "x"] := by
  have hx : PlainNames [.normal "x"] := by
    intro name hname
    obtain rfl := Component.normal.inj (List.mem_singleton.mp hname)
    decide
  have hself : ∀ q, matchesGlob [.normal "x"] q ↔ q = [.normal "x"] := by
    intro q
    have := @matchesGlob_plain_append [.normal "x"] [] q hx
    rw [List.append_nil] at this
    rw [this]
    simp [matchesGlob, fits]
  rw [h .unfilled "x" keeps_x p hp, segmentsOf_x]
  constructor
  · rintro ⟨q, rfl, hq⟩
    rw [(hself q).mp hq]
  · rintro rfl
    exact ⟨[.normal "x"], rfl, (hself _).mpr rfl⟩

/-- A directory with a character that the code rewrites is not taken literally. -/
theorem keeps_of_takenLiterally (hd : Directory style d) (h : TakenLiterally style place d) :
    place.Keeps style d.toList := by
  have hpath : FilePath style (components style d ++ [.normal "x"]) :=
    hd.names.append (.singleton fileName_letter)
  by_cases hplace : place = .saveRoot
  · subst hplace
    change Separated style d.toList
    by_contra hnot
    rw [Separated, not_or, not_not] at hnot
    obtain ⟨hstyle, hmem⟩ := hnot
    cases style with
    | windows => exact hstyle rfl
    | unix =>
        -- the pattern names other directories, and has fewer characters for the names
        obtain ⟨volume, head, rest, hchars, hvolume, hrest, hcomponents⟩ :=
          exists_volume hd.absolute
        have hmatches : ∀ p, FilePath .unix p →
            (matchesGlob (head ++ segmentsOf .unix (rest.map slash) ++ [.normal "x"]) p ↔
              p = components .unix d ++ [.normal "x"]) := by
          intro p hp
          rw [← h.only hp, patterns_saveRoot]
          simp only [List.mem_singleton, exists_eq_left]
          rw [components_customRoot hchars hvolume hrest]
          rfl
        have hweight := weight_le_of_only hpath hmatches
        rw [hcomponents] at hweight
        have hlt : nameWeight .unix (rest.map slash) < nameWeight .unix rest := by
          refine (nameWeight_slash rest).2 ?_
          cases hvolume
          rwa [hchars, List.nil_append] at hmem
        simp only [List.map_append, List.sum_append, nameWeight] at hweight hlt
        omega
  · have hkeep : '<' ∉ d.toList := by
      intro hmem
      have := (h.only hpath).mpr rfl
      rw [patterns_unfilled hplace hmem] at this
      obtain ⟨pattern, hpattern, -⟩ := this
      cases hpattern
    cases place with
    | saveRoot => exact absurd rfl hplace
    | _ => exact hkeep

/-- **When a directory name is taken literally**: exactly when its text holds no `*`, no `?`
and no `[`, and nothing that the code rewrites. -/
theorem takenLiterally_iff (hd : Directory style d) :
    TakenLiterally style place d ↔ Plain d.toList ∧ place.Keeps style d.toList := by
  constructor
  · intro h
    have hkeep := keeps_of_takenLiterally hd h
    obtain ⟨pattern, hpattern, hcomponents⟩ :=
      @components_pattern style .unfilled d "x" place hd.absolute hkeep keeps_x
    rw [segmentsOf_x] at hcomponents
    have honly : ∀ p, FilePath style p →
        (matchesGlob (components style d ++ [.normal "x"]) p ↔
          p = components style d ++ [.normal "x"]) := by
      intro p hp
      rw [← h.only hp, hpattern, ← hcomponents]
      simp
    have hplain := plain_of_only (hd.names.append (.singleton fileName_letter)) honly
    refine ⟨plain_of_plainNames hd fun name hname => ?_, hkeep⟩
    exact hplain name (List.mem_append_left _ hname)
  · rintro ⟨hplain, hkeep⟩ f g hg p -
    obtain ⟨pattern, hpattern, hcomponents⟩ :=
      @components_pattern style f d g place hd.absolute hkeep hg
    rw [hpattern]
    simp only [List.mem_singleton, exists_eq_left]
    rw [hcomponents]
    exact matchesGlob_plain_append (plainNames_of_plain hd.absolute hplain)

end Places

/-! ## A folder with a bracket -/

/-- On Unix, every absolute text names a directory that can exist. -/
theorem directory_unix {d : String} (h : isAbsolute .unix (components .unix d)) :
    Directory .unix d := by
  refine ⟨h, fun name hname => fileName_of_mem hname (by rintro ⟨⟩), ?_⟩
  intro server share hmem
  obtain ⟨head, body, heq, hhead, hbody⟩ := components_eq .unix d
  rw [heq, List.mem_append] at hmem
  rcases hmem with hmem | hmem
  · cases hhead <;> simp at hmem
  · obtain hname | ⟨name, hname, -⟩ := hbody _ hmem
    · cases hname
    · cases hname

section Example

theorem takenLiterally_plain_folder : Directory .unix "/games/Game (GOG)" ∧
    TakenLiterally .unix .installDir "/games/Game (GOG)" :=
  ⟨directory_unix (by decide),
    (takenLiterally_iff (directory_unix (by decide))).mpr ⟨by decide, by decide⟩⟩

/-- `Game [GOG]` is a class to the pattern: the saves in this folder are not matched, and
those in `Game G` are. -/
theorem bracketed_folder_missed : Directory .unix "/games/Game [GOG]" ∧
    Place.installDir.patterns .unix .unfilled "/games/Game [GOG]" "*.sav" =
      ["/games/Game [GOG]/*.sav"] ∧
    matchesGlob (segmentsOf .unix "*.sav".toList) [.normal "slot.sav"] = true ∧
    matchesGlob (components .unix "/games/Game [GOG]/*.sav")
      (components .unix "/games/Game [GOG]/slot.sav") = false ∧
    matchesGlob (components .unix "/games/Game [GOG]/*.sav")
      (components .unix "/games/Game G/slot.sav") = true ∧
    ¬ TakenLiterally .unix .installDir "/games/Game [GOG]" := by
  have hpatterns : Place.installDir.patterns .unix .unfilled "/games/Game [GOG]" "*.sav" =
      ["/games/Game [GOG]/*.sav"] := by decide +kernel
  have hmissed : matchesGlob (components .unix "/games/Game [GOG]/*.sav")
      (components .unix "/games/Game [GOG]/slot.sav") = false := by decide +kernel
  have hglob : matchesGlob (segmentsOf .unix "*.sav".toList) [.normal "slot.sav"] = true := by
    decide +kernel
  refine ⟨directory_unix (by decide), hpatterns, hglob, hmissed, by decide +kernel, fun h => ?_⟩
  have hfile : FilePath .unix (components .unix "/games/Game [GOG]/slot.sav") :=
    (directory_unix (by decide)).names
  have hpath : components .unix "/games/Game [GOG]/slot.sav" =
      components .unix "/games/Game [GOG]" ++ [.normal "slot.sav"] := by decide +kernel
  obtain ⟨pattern, hpattern, hmatches⟩ :=
    (h .unfilled "*.sav" (by decide) _ hfile).mpr ⟨_, hpath, hglob⟩
  rw [hpatterns, List.mem_singleton] at hpattern
  rw [hpattern, hmissed] at hmatches
  cases hmatches

end Example

end Savr
