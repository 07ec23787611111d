import Savr.Daemon.Catalog
import Savr.Lib.SoleClaim

/-!
# Matching folders to titles

`ManifestMatcher` of `savr-daemon/src/scan.rs`: the manifest titles and the names of their
install directories claim normalized names, and a folder belongs to the title that alone
claims its name.

## Main results

* `index_build` — the index, as the claims of the manifest put in one after the other.
* `matchFolder_iff` — when a folder matches.
-/

namespace Savr

open SoleClaim

/-- The names of the install directories of a title; a `BTreeMap` of which only the keys are
read. -/
structure ManifestEntry where
  installDir : List String
  sorted : installDir.Pairwise (· < ·)

/-- `Manifest`: title to entry. -/
structure Manifest where
  entries : List (String × ManifestEntry)
  sorted : (entries.map Prod.fst).Pairwise (· < ·)

/-- The names under which a title can be found. -/
def Manifest.Claims (m : Manifest) (name title : String) : Prop :=
  ∃ entry, (title, entry) ∈ m.entries ∧
    (normalizeTitle title = name ∨ ∃ dir ∈ entry.installDir, normalizeTitle dir = name)

/-- The canonical title of a name, or that there is more than one. -/
abbrev Match := Claim String

/-- The manifest, indexed by normalized titles and install directories. -/
structure ManifestMatcher where
  index : Index String String

namespace ManifestMatcher

/-- The closure `add` of `build`; a name without letters and digits claims nothing. -/
def add (index : Index String String) (key title : String) : Index String String :=
  if key.isEmpty then index else index.add key title

/-- `ManifestMatcher::build`. -/
def build (m : Manifest) : ManifestMatcher where
  index := m.entries.foldl (fun index e =>
    e.2.installDir.foldl (fun index dir => add index (normalizeTitle dir) e.1)
      (add index (normalizeTitle e.1) e.1)) ∅

/-- The canonical manifest title of a uniquely matched folder name. -/
def matchFolder (matcher : ManifestMatcher) (folderName : String) : Option String :=
  match matcher.index.lookup (normalizeTitle folderName) with
  | some (.one title) => some title
  | _ => none

/-- The claims of one title, in the order they are put in. -/
def claimsOf (title : String) (entry : ManifestEntry) : List (String × String) :=
  (title :: entry.installDir).map fun name => (normalizeTitle name, title)

/-- The claims of a manifest. -/
def claims (m : Manifest) : List (String × String) :=
  m.entries.flatMap fun e => claimsOf e.1 e.2

variable {m : Manifest} {name title folder : String}

/-- The claims that the index is built from. -/
theorem mem_claims : (name, title) ∈ claims m ↔ m.Claims name title := by
  rw [claims, List.mem_flatMap]
  constructor
  · rintro ⟨⟨t, entry⟩, hentry, hclaim⟩
    obtain ⟨n, hn, heq⟩ := List.mem_map.mp hclaim
    obtain ⟨rfl, rfl⟩ := Prod.mk.inj heq
    refine ⟨entry, hentry, ?_⟩
    rcases List.mem_cons.mp hn with rfl | hdir
    · exact .inl rfl
    · exact .inr ⟨n, hdir, rfl⟩
  · rintro ⟨entry, hentry, hname⟩
    refine ⟨(title, entry), hentry, List.mem_map.mpr ?_⟩
    rcases hname with rfl | ⟨dir, hdir, rfl⟩
    · exact ⟨title, List.mem_cons_self, rfl⟩
    · exact ⟨dir, List.mem_cons_of_mem title hdir, rfl⟩

/-- Claims that are put in with `add` are the nonempty ones. -/
theorem foldl_add (claims : List (String × String)) (index : Index String String) :
    claims.foldl (fun index c => add index c.1 c.2) index =
      (claims.filter fun c => !c.1.isEmpty).foldl (fun index c => index.add c.1 c.2) index := by
  induction claims generalizing index with
  | nil => rfl
  | cons c claims ih =>
      rw [List.foldl_cons, ih]
      by_cases hempty : c.1.isEmpty = true
      · rw [add, if_pos hempty, List.filter_cons_of_neg (by simp [hempty])]
      · rw [add, if_neg hempty, List.filter_cons_of_pos (by simpa using hempty)]
        rfl

/-- **The index of a manifest.** -/
theorem index_build (m : Manifest) :
    (build m).index = .ofClaims ((claims m).filter fun c => !c.1.isEmpty) := by
  have hentry : ∀ (e : String × ManifestEntry) (index : Index String String),
      e.2.installDir.foldl (fun index dir => add index (normalizeTitle dir) e.1)
        (add index (normalizeTitle e.1) e.1) =
      (claimsOf e.1 e.2).foldl (fun index c => add index c.1 c.2) index := by
    intro e index
    rw [claimsOf, List.foldl_map]
    rfl
  have hfold : (build m).index = (claims m).foldl (fun index c => add index c.1 c.2) ∅ := by
    rw [build, claims, List.foldl_flatMap]
    simp only [hentry]
  rw [hfold, foldl_add]
  rfl

/-- What the matcher answers, from the entry of the name. -/
theorem matchFolder_eq_some_iff {matcher : ManifestMatcher} :
    matcher.matchFolder folder = some title ↔
      matcher.index.lookup (normalizeTitle folder) = some (.one title) := by
  unfold matchFolder
  cases matcher.index.lookup (normalizeTitle folder) with
  | none => simp
  | some entry => cases entry <;> simp

/-- **Folder matching never guesses.**  A folder matches a title exactly when its normalized
name is not empty and this title, and no other one, claims it; a name that two titles claim
never matches, however often and in whichever order they claim it. -/
theorem matchFolder_iff (m : Manifest) (folder : String) :
    (∀ title, (build m).matchFolder folder = some title ↔
      normalizeTitle folder ≠ "" ∧ m.Claims (normalizeTitle folder) title ∧
        ∀ other, m.Claims (normalizeTitle folder) other → other = title) ∧
    ∀ (claims : List (String × String)) (title other : String), title ≠ other →
      (normalizeTitle folder, title) ∈ claims → (normalizeTitle folder, other) ∈ claims →
        matchFolder ⟨claims.foldl (fun index c => add index c.1 c.2) ∅⟩ folder = none := by
  have hnonempty : ∀ t : String, (!t.isEmpty) = true ↔ t ≠ "" := by
    intro t
    simp
  refine ⟨fun title => ?_, fun claims title other hne htitle hother => ?_⟩
  · rw [matchFolder_eq_some_iff, index_build, lookup_eq_one_iff]
    simp only [List.mem_filter, hnonempty, mem_claims]
    constructor
    · rintro ⟨⟨hclaims, hname⟩, hsole⟩
      exact ⟨hname, hclaims, fun other hother => hsole other ⟨hother, hname⟩⟩
    · rintro ⟨hname, hclaims, hsole⟩
      exact ⟨⟨hclaims, hname⟩, fun other hother => hsole other hother.1⟩
  · rw [Option.eq_none_iff_forall_ne_some]
    intro found hfound
    rw [matchFolder_eq_some_iff, foldl_add] at hfound
    obtain ⟨hmem, hsole⟩ := lookup_eq_one_iff.mp hfound
    have hkept := (List.mem_filter.mp hmem).2
    have hone := hsole title (List.mem_filter.mpr ⟨htitle, hkept⟩)
    have htwo := hsole other (List.mem_filter.mpr ⟨hother, hkept⟩)
    exact hne (hone.trans htwo.symm)

end ManifestMatcher

end Savr
