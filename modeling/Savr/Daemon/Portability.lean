import Savr.Daemon.Paths

/-!
# Which saves can be packed, and where they are restored

A file a backup collects is listed under its path relative to the anchor, packed from that
path joined onto the anchor again, and restored under the anchor of another machine.  The
anchor is shared by all patterns of the game, so whether this works for a file depends on
all of them.

## Main results

* `collected_restorable_iff` — a collected file can be packed and restored exactly when the
  part of its path up to the last drive, root or `..` is shared by all patterns.
* `portable_iff_sameTree` — the saves of a game carry over between two machines exactly when
  its templates expand to one tree of names on both.
-/

namespace Savr

/-! ### Packing -/

/-- A file under an anchor can be packed and restored: its `rel_path` is made of names,
`unpack` takes the entry, and the joined path is the file. -/
structure Restorable (style : PathStyle) (anchor path : PathBuf) : Prop where
  ne_nil : components style (relPath style path anchor) ≠ []
  normal : ∀ c ∈ components style (relPath style path anchor), c.isNormal
  accepted : isSafeRelPath style (relPath style path anchor)
  source : push style anchor (relPath style path anchor) = path

section Packing

variable {style : PathStyle} {anchor rest path : PathBuf} {patterns : List String}

/-- A file under the anchor can be packed exactly when only names lead from there to it. -/
theorem restorable_append_iff (hnames : ∀ name, .normal name ∈ rest → FileName style name) :
    Restorable style anchor (anchor ++ rest) ↔ rest ≠ [] ∧ ∀ c ∈ rest, c.isNormal := by
  constructor
  · intro h
    have hread := h.source
    rw [push_of_normal h.normal, List.append_cancel_left_eq] at hread
    rw [← hread]
    exact ⟨h.ne_nil, h.normal⟩
  · rintro ⟨hne, hnormal⟩
    obtain ⟨names, rfl⟩ := exists_names hnormal
    have hread : components style (relPath style (anchor ++ names.map .normal) anchor) =
        names.map .normal := by
      rw [relPath_names, components_joined]
      exact fun name hname => hnames name (List.mem_map_of_mem hname)
    have hsafe : ∀ c ∈ components style (relPath style (anchor ++ names.map .normal) anchor),
        c.isNormal := by
      rw [hread]
      exact hnormal
    refine ⟨?_, hsafe, List.all_eq_true.mpr hsafe, ?_⟩
    · rwa [hread]
    · rw [push_of_normal hsafe, hread]

/-- The part of a path up to its last drive, root, `.` or `..` lies on or above every
anchor candidate. -/
def SharedOpening (style : PathStyle) (patterns : List String) (path : PathBuf) : Prop :=
  ∀ dir ∈ path.inits, (dir.getLast?.any fun c => !c.isNormal) →
    ∀ q ∈ patterns, dir <+: anchorCandidate style q

instance (style : PathStyle) (patterns : List String) (path : PathBuf) :
    Decidable (SharedOpening style patterns path) :=
  inferInstanceAs (Decidable (∀ dir ∈ path.inits, _ → _))

/-- What follows the anchor opens the same way on both devices when it is made of names. -/
theorem sharedOpening_iff (h : Anchors style patterns anchor) :
    SharedOpening style patterns (anchor ++ rest) ↔ ∀ c ∈ rest, c.isNormal := by
  constructor
  · intro hshared c hc
    by_contra hnormal
    obtain ⟨before, after, rfl⟩ := List.append_of_mem hc
    have hstart : (anchor ++ before) ++ [c] <+: anchor ++ (before ++ c :: after) :=
      ⟨after, by simp⟩
    have hanchor := (h _).mpr (hshared _ ((List.mem_inits _ _).mpr hstart) (by simpa using hnormal))
    have hle := hanchor.length_le
    simp only [List.length_append, List.length_singleton] at hle
    omega
  · intro hnormal dir hdir hlast
    have hstart := (List.mem_inits _ _).mp hdir
    refine (h dir).mp ?_
    rcases List.prefix_or_prefix_of_prefix hstart (List.prefix_append anchor rest) with
      hanchor | ⟨more, rfl⟩
    · exact hanchor
    · -- beyond the anchor the last component is one of the rest, a name
      have hinside : more <+: rest := (List.prefix_append_right_inj anchor).mp hstart
      rcases List.eq_nil_or_concat' more with rfl | ⟨init, c, rfl⟩
      · rw [List.append_nil]
      · have hmem : c ∈ rest := hinside.subset (by simp)
        simp [← List.append_assoc, hnormal c hmem] at hlast

/-- An anchor is the deepest directory above all patterns. -/
theorem Anchors.above_iff (h : Anchors style patterns anchor) :
    (∀ q ∈ patterns, anchor ++ rest <+: anchorCandidate style q) ↔ rest = [] := by
  rw [← h]
  constructor
  · intro hstart
    have hle := hstart.length_le
    rw [List.length_append] at hle
    exact List.length_eq_zero_iff.mp (by omega)
  · rintro rfl
    rw [List.append_nil]

theorem not_above_iff (h : Anchors style patterns anchor) :
    (∃ q ∈ patterns, ¬ anchor ++ rest <+: anchorCandidate style q) ↔ rest ≠ [] := by
  rw [Ne, ← h.above_iff]
  push Not
  rfl

/-- **Files that can be packed.**  A file found under a pattern of a game can be packed and
restored exactly when its path is not one that leads to every anchor candidate, and whatever
is no name in it is shared by all the candidates. -/
theorem collected_restorable_iff (game : Game) (overrides : List PathOverride)
    (ctx : ResolveContext) (baseOverride : Option String) {pattern file : String}
    (hpattern : pattern ∈ (resolveGame game overrides ctx baseOverride).patterns)
    (hfound : globFree ctx.style pattern <+: components ctx.style file)
    (hcolon : ColonFree ctx.style (components ctx.style file)) :
    Restorable ctx.style (resolveGame game overrides ctx baseOverride).anchor
        (components ctx.style file) ↔
      SharedOpening ctx.style (resolveGame game overrides ctx baseOverride).patterns
          (components ctx.style file) ∧
        ∃ q ∈ (resolveGame game overrides ctx baseOverride).patterns,
          ¬ components ctx.style file <+: anchorCandidate ctx.style q := by
  have hanchor : Anchors ctx.style (resolveGame game overrides ctx baseOverride).patterns
      (resolveGame game overrides ctx baseOverride).anchor :=
    anchors_computeAnchor ctx.roots hpattern (hcolon.of_starts hfound)
  obtain ⟨rest, hrest⟩ := (hanchor.starts hpattern (hcolon.of_starts hfound)).trans hfound
  have hnames : ∀ name, .normal name ∈ rest → FileName ctx.style name := by
    intro name hname
    have hmem : .normal name ∈ components ctx.style file := by
      rw [← hrest]
      exact List.mem_append_right _ hname
    exact fileName_of_mem hmem (hcolon name hmem)
  rw [← hrest, restorable_append_iff hnames, sharedOpening_iff hanchor, not_above_iff hanchor,
    and_comm]

end Packing

section Example

/-- A game with saves under the home directory and settings under its own. -/
def twoTargets : Game where
  id := 1
  title := "Game"
  source := .manifest
  steamAppid := none
  saveTargets :=
    [⟨"<home>/saves/*", [.save], none, false⟩, ⟨"<base>/cfg/*", [.config], none, false⟩]

/-- A user with this home directory and without Steam, so that only the paths below the home
directory can be resolved. -/
def contextOf (style : PathStyle) (home : String) : ResolveContext where
  style := style
  roots :=
    { home            := home
      winAppData      := none
      winLocalAppData := none
      winDocuments    := none
      xdgData         := none
      xdgConfig       := none
      osUserName      := none }
  steamLibs := []

theorem colonFree_of_all {style : PathStyle} {path : PathBuf}
    (h : path.all fun c => c.isNormal = false ∨ ':' ∉ (c.text style).toList) :
    ColonFree style path := by
  intro name hname _
  have hc := List.all_eq_true.mp h _ hname
  simpa [Component.isNormal, Component.text] using hc

/-- With the game installed below the home directory a save can be packed and restored. -/
theorem save_below_home_restorable :
    "/home/me/saves/*" ∈
        (resolveGame twoTargets [] (contextOf .unix "/home/me") (some "/home/me/game")).patterns ∧
      Restorable .unix
        (resolveGame twoTargets [] (contextOf .unix "/home/me") (some "/home/me/game")).anchor
        (components .unix "/home/me/saves/slot/a.sav") := by
  have hpattern : "/home/me/saves/*" ∈ (resolveGame twoTargets [] (contextOf .unix "/home/me")
      (some "/home/me/game")).patterns := by decide +kernel
  refine ⟨hpattern, (collected_restorable_iff twoTargets [] (contextOf .unix "/home/me")
    (some "/home/me/game") hpattern ?_ ?_).mpr ⟨?_, ?_⟩⟩
  · decide +kernel
  · exact fun _ _ hwindows => by cases hwindows
  · decide +kernel
  · exact ⟨"/home/me/saves/*", hpattern, by decide +kernel⟩

/-- With the game installed on another drive than the home directory, the anchor is empty,
and the `rel_path` of a save starts with its drive. -/
theorem save_on_other_drive_not_restorable :
    ¬ ∀ (game : Game) (overrides : List PathOverride) (ctx : ResolveContext)
        (baseOverride : Option String) (pattern file : String),
      pattern ∈ (resolveGame game overrides ctx baseOverride).patterns →
      globFree ctx.style pattern <+: components ctx.style file →
      ColonFree ctx.style (components ctx.style file) →
      Restorable ctx.style (resolveGame game overrides ctx baseOverride).anchor
        (components ctx.style file) := by
  intro h
  have hrestorable := h twoTargets [] (contextOf .windows "C:\\Users\\me") (some "D:\\Games\\x")
    "C:\\Users\\me/saves/*" "C:\\Users\\me\\saves\\a.sav" (by decide +kernel) (by decide +kernel)
    (colonFree_of_all (by decide +kernel))
  exact absurd hrestorable.normal (by decide +kernel)

end Example

/-! ### Carrying saves over -/

/-- A machine, as far as the save locations of a game depend on it. -/
structure Host where
  ctx : ResolveContext
  base : Option String

namespace Host

variable (m : Host) (game : Game) (overrides : List PathOverride)

/-- How paths are written on the device. -/
abbrev style : PathStyle := m.ctx.style

/-- What the save targets of the game become on the device. -/
def patterns : List String := (resolveGame game overrides m.ctx m.base).patterns

/-- Where the `rel_path`s of the game start on the device. -/
def anchor : PathBuf := (resolveGame game overrides m.ctx m.base).anchor

/-- What one template becomes on the device. -/
def expansions (template : String) : List String := m.ctx.expansions game m.base template

/-- The place below the fixed part of a pattern that some names lead to. -/
def file (pattern : String) (names : List String) : PathBuf :=
  globFree m.style pattern ++ names.map .normal

/-- The machine can have a file there. -/
def CanHold (pattern : String) (names : List String) : Prop :=
  ∀ name, .normal name ∈ m.file pattern names → FileName m.style name

/-- The `rel_path` of that file. -/
def rel (pattern : String) (names : List String) : String :=
  relPath m.style (m.file pattern names) (m.anchor game overrides)

/-- A file with this `rel_path` is restored to the given place. -/
def RestoresTo (rel : String) (file : PathBuf) : Prop :=
  isSafeRelPath m.style rel ∧ push m.style (m.anchor game overrides) rel = file

/-- A directory is on or above every anchor candidate. -/
def Shares (dir : PathBuf) : Prop :=
  ∀ q ∈ m.patterns game overrides, dir <+: anchorCandidate m.style q

end Host

/-- A file at one place relative to the expansions of one template on two machines has one
`rel_path`, and a backup of it made on either is restored to that place on the other. -/
def Portable (m₁ m₂ : Host) (game : Game) (overrides : List PathOverride) : Prop :=
  ∀ template ∈ game.templates overrides,
    ∀ p ∈ m₁.expansions game template, ∀ q ∈ m₂.expansions game template,
    ∀ names, m₁.CanHold p names → m₂.CanHold q names →
      m₁.rel game overrides p names = m₂.rel game overrides q names ∧
        m₂.RestoresTo game overrides (m₁.rel game overrides p names) (m₂.file q names) ∧
        m₁.RestoresTo game overrides (m₂.rel game overrides q names) (m₁.file p names)

/-- The templates expand to one tree of names on both machines, below a root of each that
all anchor candidates share, and they share the same directories of the tree. -/
def SameTree (m₁ m₂ : Host) (game : Game) (overrides : List PathOverride) : Prop :=
  ∃ root₁ root₂,
    m₁.Shares game overrides root₁ ∧ m₂.Shares game overrides root₂ ∧
      (∀ dir, m₁.Shares game overrides (root₁ ++ dir) ↔
        m₂.Shares game overrides (root₂ ++ dir)) ∧
      ∀ template ∈ game.templates overrides,
        ∀ p ∈ m₁.expansions game template, ∀ q ∈ m₂.expansions game template,
        m₁.CanHold p [] → m₂.CanHold q [] →
          ∃ place : List String, globFree m₁.style p = root₁ ++ place.map .normal ∧
            globFree m₂.style q = root₂ ++ place.map .normal

section Carrying

variable {m m₁ m₂ : Host} {game : Game} {overrides : List PathOverride} {root : PathBuf}
  {template p q : String} {names rest : List String}

namespace Host

theorem mem_patterns (ht : template ∈ game.templates overrides)
    (hp : p ∈ m.expansions game template) : p ∈ m.patterns game overrides :=
  mem_patterns_iff.mpr ⟨template, ht, hp⟩

theorem CanHold.fixed (h : m.CanHold p names) : m.CanHold p [] :=
  fun name hname => h name (List.mem_append_left _ (by simpa [file] using hname))

theorem CanHold.colonFree (h : m.CanHold p []) : ColonFree m.style (globFree m.style p) :=
  fun name hname => (h name (List.mem_append_left _ hname)).noColon

theorem CanHold.fileName (h : m.CanHold p names)
    (hplace : globFree m.style p = root ++ rest.map .normal) :
    ∀ name ∈ rest ++ names, FileName m.style name := by
  intro name hname
  refine h name ?_
  rw [file, hplace, List.append_assoc, ← List.map_append]
  exact List.mem_append_right _ (List.mem_map_of_mem hname)

/-- A machine that can hold the beginning of a path can hold names behind it. -/
theorem canHold_append (h : m.CanHold p []) (hnames : ∀ name ∈ names, FileName m.style name) :
    m.CanHold p names := by
  intro name hname
  rcases List.mem_append.mp hname with hname | hname
  · exact h name (List.mem_append_left _ hname)
  · obtain ⟨name', hname', heq⟩ := List.mem_map.mp hname
    cases heq
    exact hnames name hname'

/-- Where files can be found, the anchor is the deepest directory all candidates share. -/
theorem anchors (hp : p ∈ m.patterns game overrides) (h : m.CanHold p []) :
    Anchors m.style (m.patterns game overrides) (m.anchor game overrides) :=
  anchors_computeAnchor m.ctx.roots hp h.colonFree

theorem rel_of_placed
    (h : globFree m.style p = m.anchor game overrides ++ rest.map .normal) :
    m.rel game overrides p names = "/".intercalate (rest ++ names) := by
  rw [rel, file, h, List.append_assoc, ← List.map_append, relPath_names]

/-- Where the fixed part of a pattern is the anchor and names below it, a file that it
matches is restored to where it was. -/
theorem restoresTo_of_placed
    (h : globFree m.style p = m.anchor game overrides ++ rest.map .normal)
    (hnames : ∀ name ∈ rest ++ names, FileName m.style name) :
    m.RestoresTo game overrides ("/".intercalate (rest ++ names)) (m.file p names) := by
  have hread := components_joined hnames
  have hnormal : ∀ c ∈ components m.style ("/".intercalate (rest ++ names)), c.isNormal := by
    rw [hread]
    exact normal_of_names _
  refine ⟨List.all_eq_true.mpr hnormal, ?_⟩
  rw [push_of_normal hnormal, hread, file, h, List.append_assoc, ← List.map_append]

/-- What is restored to a place below the anchor has only names on its way there. -/
theorem RestoresTo.normal {tail : PathBuf} {rel : String}
    (h : m.RestoresTo game overrides rel (m.anchor game overrides ++ tail)) :
    ∀ c ∈ tail, c.isNormal := by
  obtain ⟨hsafe, hpush⟩ := h
  have hnormal := List.all_eq_true.mp hsafe
  rw [push_of_normal hnormal, List.append_cancel_left_eq] at hpush
  rwa [← hpush]

end Host

/-- The anchors of a tree of names lie at one place below its two roots. -/
theorem anchors_below_roots {root₁ root₂ : PathBuf}
    (h₁ : Anchors m₁.style (m₁.patterns game overrides) (m₁.anchor game overrides))
    (h₂ : Anchors m₂.style (m₂.patterns game overrides) (m₂.anchor game overrides))
    (hroot₁ : m₁.Shares game overrides root₁) (hroot₂ : m₂.Shares game overrides root₂)
    (hdirs : ∀ dir, m₁.Shares game overrides (root₁ ++ dir) ↔
      m₂.Shares game overrides (root₂ ++ dir)) :
    ∃ shared, m₁.anchor game overrides = root₁ ++ shared ∧
      m₂.anchor game overrides = root₂ ++ shared := by
  obtain ⟨shared₁, heq₁⟩ := (h₁ root₁).mpr hroot₁
  obtain ⟨shared₂, heq₂⟩ := (h₂ root₂).mpr hroot₂
  have hle₁ : shared₁ <+: shared₂ := by
    have hshares := (hdirs shared₁).mp ((h₁ _).mp (heq₁ ▸ List.prefix_refl _))
    have hstart := (h₂ _).mpr hshares
    rwa [← heq₂, List.prefix_append_right_inj] at hstart
  have hle₂ : shared₂ <+: shared₁ := by
    have hshares := (hdirs shared₂).mpr ((h₂ _).mp (heq₂ ▸ List.prefix_refl _))
    have hstart := (h₁ _).mpr hshares
    rwa [← heq₁, List.prefix_append_right_inj] at hstart
  have heq : shared₁ = shared₂ := hle₁.eq_of_length_le hle₂.length_le
  exact ⟨shared₁, heq₁.symm, heq ▸ heq₂.symm⟩

/-- The names of a place that are left below a directory on the way to it. -/
theorem place_split (root : PathBuf) {shared : PathBuf} {place : List String}
    (h : root ++ shared <+: root ++ place.map .normal) :
    ∃ rest : List String, place.map Component.normal = shared ++ rest.map .normal := by
  have hshared := (List.prefix_append_right_inj root).mp h
  refine ⟨place.drop shared.length, ?_⟩
  rw [List.map_drop]
  conv_lhs => rw [← List.take_append_drop shared.length (place.map Component.normal)]
  rw [← List.prefix_iff_eq_take.mp hshared]

/-- Devices with the same tree restore each other's files. -/
theorem portable_of_sameTree (h : SameTree m₁ m₂ game overrides) :
    Portable m₁ m₂ game overrides := by
  obtain ⟨root₁, root₂, hroot₁, hroot₂, hdirs, htree⟩ := h
  intro template ht p hp q hq names hhold₁ hhold₂
  have hmem₁ := Host.mem_patterns ht hp
  have hmem₂ := Host.mem_patterns ht hq
  have hanchors₁ := Host.anchors hmem₁ hhold₁.fixed
  obtain ⟨shared, heq₁, heq₂⟩ := anchors_below_roots hanchors₁
    (Host.anchors hmem₂ hhold₂.fixed) hroot₁ hroot₂ hdirs
  obtain ⟨place, hplace₁, hplace₂⟩ := htree template ht p hp q hq hhold₁.fixed hhold₂.fixed
  -- the anchor is reached on the way to the place; what is left is the start of the `rel_path`
  obtain ⟨rest, hrest⟩ : ∃ rest : List String, place.map Component.normal =
      shared ++ rest.map .normal := by
    refine place_split root₁ ?_
    rw [← heq₁, ← hplace₁]
    exact hanchors₁.starts hmem₁ hhold₁.fixed.colonFree
  rw [hrest, ← List.append_assoc, ← heq₁] at hplace₁
  rw [hrest, ← List.append_assoc, ← heq₂] at hplace₂
  rw [Host.rel_of_placed hplace₁, Host.rel_of_placed hplace₂]
  exact ⟨rfl, Host.restoresTo_of_placed hplace₂ (hhold₂.fileName hplace₂),
    Host.restoresTo_of_placed hplace₁ (hhold₁.fileName hplace₁)⟩

theorem fileName_x (style : PathStyle) : FileName style "x" := by
  refine ⟨by decide, by decide, by decide, ?_, fun _ => by decide⟩
  intro c hc
  obtain rfl : c = 'x' := by simpa using hc
  cases style <;> rfl

/-- A portable game has the fixed parts of one template at one place below both anchors. -/
theorem Portable.placed (h : Portable m₁ m₂ game overrides)
    (ht : template ∈ game.templates overrides) (hp : p ∈ m₁.expansions game template)
    (hq : q ∈ m₂.expansions game template) (hhold₁ : m₁.CanHold p []) (hhold₂ : m₂.CanHold q []) :
    ∃ place : List String,
      globFree m₁.style p = m₁.anchor game overrides ++ place.map .normal ∧
        globFree m₂.style q = m₂.anchor game overrides ++ place.map .normal := by
  have hmem₁ := Host.mem_patterns ht hp
  have hmem₂ := Host.mem_patterns ht hq
  -- a file directly below the fixed parts shows where these are
  have hfile₁ : m₁.CanHold p ["x"] := Host.canHold_append hhold₁ (by simp [fileName_x])
  have hfile₂ : m₂.CanHold q ["x"] := Host.canHold_append hhold₂ (by simp [fileName_x])
  obtain ⟨heq, hto₂, hto₁⟩ := h template ht p hp q hq ["x"] hfile₁ hfile₂
  obtain ⟨tail₁, htail₁⟩ := (Host.anchors hmem₁ hhold₁).starts hmem₁ hhold₁.colonFree
  obtain ⟨tail₂, htail₂⟩ := (Host.anchors hmem₂ hhold₂).starts hmem₂ hhold₂.colonFree
  rw [Host.file, ← htail₁, List.append_assoc] at hto₁
  rw [Host.file, ← htail₂, List.append_assoc] at hto₂
  obtain ⟨rest₁, rfl⟩ := exists_names fun c hc => hto₁.normal c (List.mem_append_left _ hc)
  obtain ⟨rest₂, rfl⟩ := exists_names fun c hc => hto₂.normal c (List.mem_append_left _ hc)
  rw [Host.rel_of_placed htail₁.symm, Host.rel_of_placed htail₂.symm] at heq
  have hsame : rest₁ ++ ["x"] = rest₂ ++ ["x"] := joined_injective
    (fun name hname => (hfile₁.fileName htail₁.symm name hname).noSlash)
    (fun name hname => (hfile₂.fileName htail₂.symm name hname).noSlash) (by simp) (by simp) heq
  refine ⟨rest₁, htail₁.symm, ?_⟩
  rw [List.append_cancel_right hsame]
  exact htail₂.symm

/-- **Portability.**  On two machines that resolve every template of a game, its saves carry
over exactly when the templates expand to one tree of names on both. -/
theorem portable_iff_sameTree (m₁ m₂ : Host) (game : Game) (overrides : List PathOverride)
    (hresolve : ∀ template ∈ game.templates overrides,
      m₁.expansions game template ≠ [] ∧ m₂.expansions game template ≠ []) :
    Portable m₁ m₂ game overrides ↔ SameTree m₁ m₂ game overrides := by
  refine ⟨fun h => ?_, portable_of_sameTree⟩
  cases htemplates : game.templates overrides with
  | nil =>
      -- no template, no file: every directory is shared
      have hshares : ∀ (m : Host) dir, m.Shares game overrides dir := by
        simp [Host.Shares, Host.patterns, mem_patterns_iff, htemplates]
      exact ⟨[], [], hshares m₁ [], hshares m₂ [],
        fun dir => iff_of_true (hshares m₁ _) (hshares m₂ _), by simp [htemplates]⟩
  | cons template₀ templates =>
      have ht₀ : template₀ ∈ game.templates overrides := by simp [htemplates]
      have hpatterns : ∀ m : Host, m.expansions game template₀ ≠ [] →
          m.patterns game overrides ≠ [] := by
        intro m hne
        obtain ⟨p, hp⟩ := List.exists_mem_of_ne_nil _ hne
        exact List.ne_nil_of_mem (Host.mem_patterns ht₀ hp)
      obtain ⟨hne₁, hne₂⟩ := hresolve template₀ ht₀
      -- each machine strips the longest start its patterns share
      obtain ⟨root₁, hroot₁⟩ := exists_anchors m₁.style (hpatterns m₁ hne₁)
      obtain ⟨root₂, hroot₂⟩ := exists_anchors m₂.style (hpatterns m₂ hne₂)
      refine ⟨root₁, root₂, (hroot₁ _).mp (List.prefix_refl _), (hroot₂ _).mp (List.prefix_refl _),
        fun dir => hroot₁.above_iff.trans hroot₂.above_iff.symm, ?_⟩
      intro template ht p hp q hq hhold₁ hhold₂
      have heq₁ := hroot₁.unique (Host.anchors (Host.mem_patterns ht hp) hhold₁)
      have heq₂ := hroot₂.unique (Host.anchors (Host.mem_patterns ht hq) hhold₂)
      rw [heq₁, heq₂]
      exact h.placed ht hp hq hhold₁ hhold₂

end Carrying

section CarryingExample

/-- A game with all its saves under the home directory. -/
def homeTargets : Game where
  id := 1
  title := "Game"
  source := .manifest
  steamAppid := none
  saveTargets :=
    [⟨"<home>/saves/*", [.save], none, false⟩, ⟨"<home>/settings.json", [.config], none, false⟩]

/-- A Linux device. -/
def aliceHost : Host where
  ctx := contextOf .unix "/home/alice"
  base := some "/opt/game"

/-- A Windows device. -/
def bobHost : Host where
  ctx := contextOf .windows "C:\\Users\\bob"
  base := some "D:\\Games\\game"

theorem Host.canHold_of_components {m : Host} {p : String} {names : List String} {text : String}
    (heq : m.file p names = components m.style text)
    (hcolon : ColonFree m.style (components m.style text)) : m.CanHold p names := by
  intro name hname
  rw [heq] at hname
  exact fileName_of_mem hname (hcolon name hname)

theorem homeTargets_templates {template : String} :
    template ∈ homeTargets.templates [] ↔
      template = "<home>/saves/*" ∨ template = "<home>/settings.json" := by
  simp [homeTargets, Game.templates]

/-- What the targets are on the Unix machine. -/
theorem aliceHost_reads :
    aliceHost.expansions homeTargets "<home>/saves/*" = ["/home/alice/saves/*"] ∧
      aliceHost.expansions homeTargets "<home>/settings.json" = ["/home/alice/settings.json"] ∧
      aliceHost.file "/home/alice/saves/*" [] = components aliceHost.style "/home/alice/saves" ∧
      aliceHost.anchor homeTargets [] = components aliceHost.style "/home/alice" := by
  decide +kernel

/-- What the targets are on the Windows machine. -/
theorem bobHost_reads :
    bobHost.expansions homeTargets "<home>/saves/*" = ["C:\\Users\\bob/saves/*"] ∧
      bobHost.expansions homeTargets "<home>/settings.json" =
        ["C:\\Users\\bob/settings.json"] ∧
      bobHost.file "C:\\Users\\bob/saves/*" [] =
        components bobHost.style "C:\\Users\\bob/saves" ∧
      bobHost.anchor homeTargets [] = components bobHost.style "C:\\Users\\bob" := by
  decide +kernel

/-- Saves under the home directory carry over from a Unix to a Windows machine. -/
theorem home_saves_portable :
    (∀ template ∈ homeTargets.templates [],
      aliceHost.expansions homeTargets template ≠ [] ∧
        bobHost.expansions homeTargets template ≠ []) ∧
      Portable aliceHost bobHost homeTargets [] := by
  obtain ⟨hasaves, hasettings, hafixed, haanchor⟩ := aliceHost_reads
  obtain ⟨hbsaves, hbsettings, hbfixed, hbanchor⟩ := bobHost_reads
  have hresolve : ∀ template ∈ homeTargets.templates [],
      aliceHost.expansions homeTargets template ≠ [] ∧
        bobHost.expansions homeTargets template ≠ [] := by
    intro template ht
    rcases homeTargets_templates.mp ht with rfl | rfl
    · simp [hasaves, hbsaves]
    · simp [hasettings, hbsettings]
  refine ⟨hresolve, (portable_iff_sameTree aliceHost bobHost homeTargets [] hresolve).mpr ?_⟩
  have hsaves := homeTargets_templates.mpr (Or.inl rfl)
  have halice := Host.anchors (Host.mem_patterns hsaves (by simp [hasaves]))
    (Host.canHold_of_components hafixed fun _ _ hwindows => by cases hwindows)
  have hbob := Host.anchors (Host.mem_patterns hsaves (by simp [hbsaves]))
    (Host.canHold_of_components hbfixed (colonFree_of_all (by decide +kernel)))
  refine ⟨_, _, (halice _).mp (List.prefix_refl _), (hbob _).mp (List.prefix_refl _),
    fun dir => halice.above_iff.trans hbob.above_iff.symm, ?_⟩
  intro template ht p hp q hq _ _
  rw [haanchor, hbanchor]
  rcases homeTargets_templates.mp ht with rfl | rfl
  · obtain rfl : p = "/home/alice/saves/*" := by simpa [hasaves] using hp
    obtain rfl : q = "C:\\Users\\bob/saves/*" := by simpa [hbsaves] using hq
    exact ⟨["saves"], by decide +kernel, by decide +kernel⟩
  · obtain rfl : p = "/home/alice/settings.json" := by simpa [hasettings] using hp
    obtain rfl : q = "C:\\Users\\bob/settings.json" := by simpa [hbsettings] using hq
    exact ⟨["settings.json"], by decide +kernel, by decide +kernel⟩

/-- The same machine with another user. -/
def carolHost : Host where
  ctx := contextOf .unix "/home/carol"
  base := some "/opt/game"

/-- With settings in the install directory the anchor is `/`, and the `rel_path` of a save
holds the name of the home directory. -/
theorem two_roots_not_portable :
    ¬ ∀ (m₁ m₂ : Host) (game : Game) (overrides : List PathOverride),
      (∀ template ∈ game.templates overrides,
        m₁.expansions game template ≠ [] ∧ m₂.expansions game template ≠ []) →
      Portable m₁ m₂ game overrides := by
  intro h
  have hportable := h aliceHost carolHost twoTargets [] (by decide +kernel)
  have halice : aliceHost.CanHold "/home/alice/saves/*" ["a.sav"] := by
    have heq : aliceHost.file "/home/alice/saves/*" ["a.sav"] =
        components aliceHost.style "/home/alice/saves/a.sav" := by decide +kernel
    exact Host.canHold_of_components heq fun _ _ hwindows => by cases hwindows
  have hcarol : carolHost.CanHold "/home/carol/saves/*" ["a.sav"] := by
    have heq : carolHost.file "/home/carol/saves/*" ["a.sav"] =
        components carolHost.style "/home/carol/saves/a.sav" := by decide +kernel
    exact Host.canHold_of_components heq fun _ _ hwindows => by cases hwindows
  have hsame := hportable "<home>/saves/*" (by decide +kernel) "/home/alice/saves/*"
    (by decide +kernel) "/home/carol/saves/*" (by decide +kernel) ["a.sav"] halice hcarol
  exact absurd hsame.1 (by decide +kernel)

end CarryingExample

end Savr
