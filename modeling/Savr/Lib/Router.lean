import Mathlib.Data.List.Nodup

/-!
# Routing by path segments

A route is a pattern of segments and what it leads to.  A literal segment matches itself, a
parameter matches any one segment that is not empty, and a literal is tried before a
parameter.

What a table of routes leads to does not depend on how it is searched: among the patterns that
match a path one is preferred to the others, and any matcher that prefers literals finds it.

## Main results

* `segments_intercalate` — the segments of a path that is put together from segments.
* `lookup_lit`, `lookup_param` — a path is followed segment by segment.
* `exists_preferred` — the search finds the preferred pattern.
* `Matcher.route_eq_lookup` — every matcher that prefers literals finds what the search finds.
-/

namespace Router

universe u

/-- A segment of a route: a text, or a parameter that stands for any segment. -/
inductive Segment
  | lit (text : String)
  | param
  deriving DecidableEq, Repr

/-- What stands between the slashes of a path. -/
def segments (path : String) : List String :=
  (path.toList.splitOn '/').map String.ofList

/-- A path that is joined from segments is cut into them again. -/
theorem segments_intercalate {segs : List String} (hplain : ∀ s ∈ segs, '/' ∉ s.toList)
    (hne : segs ≠ []) : segments ("/".intercalate segs) = segs := by
  have hsplit : List.splitOn '/' (['/'].intercalate (segs.map String.toList)) =
      segs.map String.toList := by
    refine List.splitOn_intercalate '/' (fun l hl => ?_) (by simpa using hne)
    obtain ⟨s, hs, rfl⟩ := List.mem_map.mp hl
    exact hplain s hs
  rw [segments, String.toList_intercalate]
  change (List.splitOn '/' (['/'].intercalate _)).map _ = _
  rw [hsplit, List.map_map]
  exact (List.map_congr_left fun s _ => String.ofList_toList).trans (List.map_id _)

/-- A segment in braces is a parameter. -/
def Segment.parse (text : String) : Segment :=
  match text.toList with
  | '{' :: _ => .param
  | _ => .lit text

/-- The segments of a route. -/
def pattern (text : String) : List Segment :=
  (segments text).map Segment.parse

variable {A : Type u}

/-- What is left of a route after a literal segment. -/
def Segment.afterLit (s : String) : List Segment × A → Option (List Segment × A)
  | (.lit t :: rest, a) => if t = s then some (rest, a) else none
  | _ => none

/-- What is left of a route after a parameter. -/
def Segment.afterParam : List Segment × A → Option (List Segment × A)
  | (.param :: rest, a) => some (rest, a)
  | _ => none

/-- Follow the segments of a path through the routes. -/
def lookup : List String → List (List Segment × A) → Option A
  | [], routes => (routes.find? fun r => r.1 = []).map Prod.snd
  | s :: path, routes =>
      (lookup path (routes.filterMap (Segment.afterLit s))).or
        (if s = "" then none else lookup path (routes.filterMap Segment.afterParam))

theorem lookup_nil (path : List String) : lookup path ([] : List (List Segment × A)) = none := by
  induction path with
  | nil => rfl
  | cons s path ih => simp [lookup, ih]

/-- A literal is tried first. -/
theorem lookup_lit {s : String} {path : List String} {routes : List (List Segment × A)} {a : A}
    (h : lookup path (routes.filterMap (Segment.afterLit s)) = some a) :
    lookup (s :: path) routes = some a := by
  rw [lookup, h]
  rfl

/-- A segment that is no literal of any route is a parameter. -/
theorem lookup_param {s : String} (hs : s ≠ "") {routes : List (List Segment × A)}
    (hlit : routes.filterMap (Segment.afterLit s) = []) (path : List String) :
    lookup (s :: path) routes = lookup path (routes.filterMap Segment.afterParam) := by
  rw [lookup, hlit, lookup_nil, if_neg hs]
  rfl

/-! ### Matching -/

section Matching

variable {s : String} {path : List String} {p q : List Segment} {a : A}
  {routes : List (List Segment × A)}

/-- A literal matches itself, a parameter every segment that is not empty. -/
def Segment.Matches : Segment → String → Prop
  | .lit t, s => t = s
  | .param, s => s ≠ ""

instance : ∀ (segment : Segment) (s : String), Decidable (segment.Matches s)
  | .lit t, s => inferInstanceAs (Decidable (t = s))
  | .param, s => inferInstanceAs (Decidable (s ≠ ""))

/-- A pattern matches a path segment by segment. -/
def Matches : List Segment → List String → Prop
  | [], [] => True
  | segment :: p, s :: path => segment.Matches s ∧ Matches p path
  | _, _ => False

instance decidableMatches : ∀ (p : List Segment) (path : List String), Decidable (Matches p path)
  | [], [] => inferInstanceAs (Decidable True)
  | segment :: p, s :: path =>
      have := decidableMatches p path
      inferInstanceAs (Decidable (segment.Matches s ∧ Matches p path))
  | [], _ :: _ => inferInstanceAs (Decidable False)
  | _ :: _, [] => inferInstanceAs (Decidable False)

/-- Where the two patterns first differ, this one has a literal and the other a parameter. -/
def Preferred : List Segment → List Segment → Prop
  | .lit _ :: _, .param :: _ => True
  | segment :: p, segment' :: q => segment = segment' ∧ Preferred p q
  | _, _ => False

theorem preferred_cons {segment : Segment} : Preferred (segment :: p) (segment :: q) ↔
    Preferred p q := by
  cases segment with
  | lit t => exact ⟨fun h => h.2, fun h => ⟨rfl, h⟩⟩
  | param => exact ⟨fun h => h.2, fun h => ⟨rfl, h⟩⟩

theorem not_preferred_self (p : List Segment) : ¬ Preferred p p := by
  induction p with
  | nil => exact id
  | cons segment p ih => rwa [preferred_cons]

/-- Of two patterns only one is preferred. -/
theorem Preferred.asymm (h : Preferred p q) : ¬ Preferred q p := by
  induction p generalizing q with
  | nil => exact h.elim
  | cons segment p ih =>
      cases q with
      | nil => cases segment <;> exact h.elim
      | cons segment' q =>
          by_cases heq : segment = segment'
          · subst heq
            rw [preferred_cons] at h ⊢
            exact ih h
          · cases segment with
            | lit t =>
                cases segment' with
                | lit t' => exact absurd h.1 heq
                | param => exact fun h' => Segment.noConfusion h'.1
            | param => cases segment' <;> exact absurd h.1 heq

/-- The routes that go on after a text. -/
theorem mem_afterLit {rest : List Segment} :
    (rest, a) ∈ routes.filterMap (Segment.afterLit s) ↔ (.lit s :: rest, a) ∈ routes := by
  rw [List.mem_filterMap]
  constructor
  · rintro ⟨⟨p, b⟩, hmem, hafter⟩
    cases p with
    | nil => cases hafter
    | cons segment p =>
        cases segment with
        | lit t =>
            rw [Segment.afterLit] at hafter
            split_ifs at hafter with ht
            cases hafter
            exact ht ▸ hmem
        | param => cases hafter
  · exact fun hmem => ⟨_, hmem, if_pos rfl⟩

/-- The routes that go on after a parameter. -/
theorem mem_afterParam {rest : List Segment} :
    (rest, a) ∈ routes.filterMap Segment.afterParam ↔ (.param :: rest, a) ∈ routes := by
  rw [List.mem_filterMap]
  constructor
  · rintro ⟨⟨p, b⟩, hmem, hafter⟩
    cases p with
    | nil => cases hafter
    | cons segment p =>
        cases segment with
        | lit t => cases hafter
        | param =>
            cases hafter
            exact hmem
  · exact fun hmem => ⟨_, hmem, rfl⟩

/-- What the search misses matches no pattern. -/
theorem not_matches_of_lookup (h : lookup path routes = none) (hmem : (p, a) ∈ routes) :
    ¬ Matches p path := by
  induction path generalizing routes p with
  | nil =>
      cases p with
      | nil =>
          rw [lookup, Option.map_eq_none_iff, List.find?_eq_none] at h
          exact absurd (decide_eq_true rfl) (h _ hmem)
      | cons segment p => exact id
  | cons s path ih =>
      rw [lookup, Option.or_eq_none_iff] at h
      cases p with
      | nil => exact id
      | cons segment p =>
          rintro ⟨hsegment, hrest⟩
          cases segment with
          | lit t =>
              obtain rfl : t = s := hsegment
              exact ih h.1 (mem_afterLit.mpr hmem) hrest
          | param =>
              rw [if_neg hsegment] at h
              exact ih h.2 (mem_afterParam.mpr hmem) hrest

/-- **What the search finds** is what a matching pattern leads to that is preferred to all
others. -/
theorem exists_preferred (h : lookup path routes = some a) : ∃ p, (p, a) ∈ routes ∧
    Matches p path ∧ ∀ q b, (q, b) ∈ routes → Matches q path → q = p ∨ Preferred p q := by
  induction path generalizing routes with
  | nil =>
      rw [lookup, Option.map_eq_some_iff] at h
      obtain ⟨⟨p, b⟩, hfind, rfl⟩ := h
      obtain rfl : p = [] := by simpa using List.find?_some hfind
      refine ⟨[], List.mem_of_find?_eq_some hfind, trivial, fun q b _ hq => .inl ?_⟩
      cases q with
      | nil => rfl
      | cons segment q => exact hq.elim
  | cons s path ih =>
      rw [lookup] at h
      cases hlit : lookup path (routes.filterMap (Segment.afterLit s)) with
      | some b =>
          rw [hlit, Option.some_or] at h
          obtain ⟨p, hmem, hp, hpreferred⟩ := ih (hlit.trans h)
          refine ⟨.lit s :: p, mem_afterLit.mp hmem, ⟨rfl, hp⟩, fun q c hq hmatches => ?_⟩
          cases q with
          | nil => exact hmatches.elim
          | cons segment q =>
              cases segment with
              | lit t =>
                  obtain rfl : t = s := hmatches.1
                  rw [preferred_cons]
                  exact (hpreferred q c (mem_afterLit.mpr hq) hmatches.2).imp_left
                    (congrArg (Segment.lit t :: ·))
              | param => exact .inr trivial
      | none =>
          rw [hlit, Option.none_or] at h
          split_ifs at h with hs
          obtain ⟨p, hmem, hp, hpreferred⟩ := ih h
          refine ⟨.param :: p, mem_afterParam.mp hmem, ⟨hs, hp⟩, fun q c hq hmatches => ?_⟩
          cases q with
          | nil => exact hmatches.elim
          | cons segment q =>
              cases segment with
              | lit t =>
                  obtain rfl : t = s := hmatches.1
                  exact absurd hmatches.2 (not_matches_of_lookup hlit (mem_afterLit.mpr hq))
              | param =>
                  rw [preferred_cons]
                  exact (hpreferred q c (mem_afterParam.mpr hq) hmatches.2).imp_left
                    (congrArg (Segment.param :: ·))

end Matching

/-! ### Any matcher -/

/-- A matcher of paths that prefers literals, however it searches its routes. What it is used
for depends on these two laws alone. -/
structure Matcher (A : Type u) where
  route : List (List Segment × A) → List String → Option A
  /-- What is found is what a matching pattern leads to. -/
  sound : ∀ {routes path a}, route routes path = some a → ∃ p, (p, a) ∈ routes ∧ Matches p path
  /-- A matching pattern that is preferred to every other one is found. -/
  found : ∀ {routes path p a}, (p, a) ∈ routes → Matches p path →
    (∀ q b, (q, b) ∈ routes → Matches q path → (q, b) = (p, a) ∨ Preferred p q) →
    route routes path = some a

/-- The search, segment by segment, prefers literals: it tries the routes behind a literal
first, and those behind a parameter only if none of them matches. -/
def bySegments : Matcher A where
  route routes path := lookup path routes
  sound h := (exists_preferred h).imp fun _ hp => ⟨hp.1, hp.2.1⟩
  found := by
    intro routes path p a hmem hp hpreferred
    cases hlookup : lookup path routes with
    | none => exact absurd hp (not_matches_of_lookup hlookup hmem)
    | some b =>
        obtain ⟨q, hq, hmatches, hfirst⟩ := exists_preferred hlookup
        rcases hpreferred q b hq hmatches with heq | hbefore
        · exact congrArg (fun r => some r.2) heq
        · rcases hfirst p a hmem hp with rfl | hafter
          · exact absurd hbefore (not_preferred_self p)
          · exact absurd hbefore hafter.asymm

/-- **Every matcher that prefers literals** finds what the search finds, where no pattern is
listed twice. -/
theorem Matcher.route_eq_lookup (m : Matcher A) {routes : List (List Segment × A)}
    (distinct : (routes.map Prod.fst).Nodup) (path : List String) :
    m.route routes path = lookup path routes := by
  cases hlookup : lookup path routes with
  | none =>
      cases hroute : m.route routes path with
      | none => rfl
      | some a =>
          obtain ⟨p, hmem, hp⟩ := m.sound hroute
          exact absurd hp (not_matches_of_lookup hlookup hmem)
  | some a =>
      obtain ⟨p, hmem, hp, hpreferred⟩ := exists_preferred hlookup
      refine m.found hmem hp fun q b hq hmatches => ?_
      exact (hpreferred q b hq hmatches).imp_left
        (List.inj_on_of_nodup_map distinct hq hmem)

end Router
