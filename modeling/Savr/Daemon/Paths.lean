import Savr.Core.Path
import Savr.Lib.CommonStart

/-!
# Save locations

`savr-daemon/src/paths.rs` with `manifest::resolve` of `savr-core`: the save templates of a
game become glob patterns on a machine, and the anchor is the common ancestor of their fixed
parts.

What the file system is asked (which accounts have signed in, which Proton prefixes exist)
is part of `SteamLibrary`.

## Main results

* `mem_patterns_iff` — the patterns of a game are the expansions of its templates.
* `anchors_computeAnchor` — the anchor is the deepest directory all anchor candidates share.
-/

namespace Savr

open CommonStart

/-! ### Templates -/

/-- `str::contains` on characters. -/
def hasText (pattern chars : List Char) : Bool :=
  chars.tails.any pattern.isPrefixOf

/-- `str::replace`, with as many characters still to skip as the last match covered. -/
def replaceFrom (pattern value : List Char) : ℕ → List Char → List Char
  | _, [] => []
  | skip + 1, _ :: chars => replaceFrom pattern value skip chars
  | 0, c :: chars =>
      if pattern.isPrefixOf (c :: chars) then
        value ++ replaceFrom pattern value (pattern.length - 1) chars
      else c :: replaceFrom pattern value 0 chars

/-- `str::replace`. -/
def replaceText (pattern value text : String) : String :=
  String.ofList (replaceFrom pattern.toList value.toList 0 text.toList)

/-- The well-known directories of a machine. The ones that a platform does not have are
missing, and so is every path through them. -/
structure Roots where
  home : String
  winAppData : Option String
  winLocalAppData : Option String
  winDocuments : Option String
  xdgData : Option String
  xdgConfig : Option String
  osUserName : Option String

/-- The placeholders of a template and what they stand for, in the order they are filled. -/
def placeholders (roots : Roots) (base : Option String) : List (String × Option String) :=
  [("<base>", base), ("<home>", some roots.home), ("<winAppData>", roots.winAppData),
   ("<winLocalAppData>", roots.winLocalAppData), ("<winDocuments>", roots.winDocuments),
   ("<xdgData>", roots.xdgData), ("<xdgConfig>", roots.xdgConfig),
   ("<osUserName>", roots.osUserName)]

/-- `manifest::resolve`: the placeholders are filled in one after the other, and a template
with one that the machine lacks names no path. -/
def resolveTemplate (template : String) (roots : Roots) (base : Option String) :
    Option String := do
  let out ← (placeholders roots base).foldlM (fun out (placeholder, value) =>
    if hasText placeholder.toList out.toList then
      value.map fun value => replaceText placeholder value out
    else some out) template
  -- a placeholder of the store is left for the daemon
  if '<' ∈ out.toList then none else some out

/-! ### Steam -/

/-- An installed game of a library. -/
structure SteamGame where
  appid : ℕ
  installdir : String

/-- A Steam library, with what of its disk the resolution asks for. -/
structure SteamLibrary where
  path : String
  games : List SteamGame
  /-- `steam_account_ids` of the library's `userdata`. -/
  accounts : List String
  /-- The games whose `proton_drive_c` exists. -/
  prefixes : List ℕ

/-- Where a game of the library is installed. -/
def SteamLibrary.installPath (style : PathStyle) (lib : SteamLibrary) (game : SteamGame) : String :=
  join style (join style (join style lib.path "steamapps") "common") game.installdir

/-- The `drive_c` of the Proton prefix of a game. -/
def SteamLibrary.protonDriveC (style : PathStyle) (lib : SteamLibrary) (appid : ℕ) : String :=
  ["steamapps", "compatdata", toString appid, "pfx", "drive_c"].foldl (join style) lib.path

/-- Everything path resolution needs from the environment. -/
structure ResolveContext where
  style : PathStyle
  roots : Roots
  steamLibs : List SteamLibrary

/-- The Windows placeholders point into a Proton prefix, below the user that Proton makes
there. The others are those of the machine. -/
def protonPrefixRoots (style : PathStyle) (base : Roots) (driveC : String) : Roots :=
  let user := join style (join style driveC "users") "steamuser"
  { home            := user
    winAppData      := some (join style (join style user "AppData") "Roaming")
    winLocalAppData := some (join style (join style user "AppData") "Local")
    winDocuments    := some (join style user "Documents")
    xdgData         := base.xdgData
    xdgConfig       := base.xdgConfig
    osUserName      := some "steamuser" }

namespace ResolveContext

variable (ctx : ResolveContext)

/-- Where Steam has installed the game. -/
def installDir (appid : Option ℕ) : Option String := do
  let appid ← appid
  ctx.steamLibs.findSome? fun lib =>
    (lib.games.find? fun g => g.appid = appid).map (lib.installPath ctx.style)

/-- The roots inside the Proton prefixes of the game. -/
def protonRoots : Option ℕ → List Roots
  | none => []
  | some appid => ctx.steamLibs.filterMap fun lib =>
      if appid ∈ lib.prefixes then
        some (protonPrefixRoots ctx.style ctx.roots (lib.protonDriveC ctx.style appid))
      else none

end ResolveContext

/-- Append what is not in the list already. -/
def pushUnique (v : List String) (s : String) : List String :=
  if s ∈ v then v else v ++ [s]

/-- Fill in the library and the account, once for each pair of them. A template that names
neither is left as it is, also without any library. -/
def expandSteamPlaceholders (template : String) (libs : List SteamLibrary) : List String :=
  let needsRoot := hasText "<root>".toList template.toList
  let needsUid := hasText "<storeUserId>".toList template.toList
  if !needsRoot && !needsUid then [template]
  else
    (libs.flatMap fun lib =>
      if needsUid then
        lib.accounts.map fun uid =>
          let s := if needsRoot then replaceText "<root>" lib.path template else template
          replaceText "<storeUserId>" uid s
      else [replaceText "<root>" lib.path template]).foldl pushUnique []

/-! ### The anchor -/

section Anchor

variable (style : PathStyle)

/-- `is_glob`. -/
def isGlob (text : String) : Bool :=
  text.toList.any fun c => c ∈ ['*', '?', '[', ']', '{', '}']

/-- The leading components of a pattern that hold no glob character. -/
def globFree (pattern : String) : PathBuf :=
  (components style pattern).takeWhile fun c => !isGlob (c.text style)

/-- The longest part of a pattern without a glob, or the directory of a plain file. -/
def anchorCandidate (pattern : String) : PathBuf :=
  let acc := pushAll style (globFree style pattern)
  let hitGlob := (components style pattern).any fun c => isGlob (c.text style)
  if hitGlob then acc else (parent acc).getD acc

/-- The longest common start of the candidates. -/
def commonAncestor : List PathBuf → Option PathBuf
  | [] => none
  | first :: rest => some (pushAll style (commonStart first rest))

/-- The directory that `rel_path`s are relative to; the home directory without patterns. -/
def computeAnchor (patterns : List String) (roots : Roots) : PathBuf :=
  if patterns.isEmpty then components style roots.home
  else (commonAncestor style (patterns.map (anchorCandidate style))).getD
    (components style roots.home)

end Anchor

/-! ### Resolving a game -/

/-- What a game means on this device. -/
structure ResolvedGame where
  patterns : List String
  registryKeys : List String
  anchor : PathBuf
  excludes : List String

/-- The templates to resolve: an override redirects the whole game. -/
def Game.templates (game : Game) (overrides : List PathOverride) : List String :=
  match overrides.find? fun o => o.gameId = game.id with
  | some o => o.globs
  | none => (game.saveTargets.filter fun t => !t.registry).map SaveTarget.glob

/-- The registry keys of a game; an override leaves none. -/
def Game.registryKeys (game : Game) (overrides : List PathOverride) : List String :=
  match overrides.find? fun o => o.gameId = game.id with
  | some _ => []
  | none =>
      ((game.saveTargets.filter SaveTarget.registry).map SaveTarget.glob).foldl pushUnique []

/-- The patterns one template stands for: on the host, and inside its Proton prefixes. -/
def ResolveContext.expansions (ctx : ResolveContext) (game : Game) (baseOverride : Option String)
    (template : String) : List String :=
  let base := baseOverride <|> ctx.installDir game.steamAppid
  (expandSteamPlaceholders template ctx.steamLibs).filterMap
      (fun concrete => resolveTemplate concrete ctx.roots base) ++
    (ctx.protonRoots game.steamAppid).filterMap fun roots => resolveTemplate template roots base

/-- `resolve_game`: the paths of all templates, each once, and the deepest directory above
all of them as the anchor. -/
def resolveGame (game : Game) (overrides : List PathOverride) (ctx : ResolveContext)
    (baseOverride : Option String) : ResolvedGame :=
  let patterns := ((game.templates overrides).flatMap (ctx.expansions game baseOverride)).foldl
    pushUnique []
  { patterns     := patterns
    registryKeys := game.registryKeys overrides
    anchor       := computeAnchor ctx.style patterns ctx.roots
    excludes     := [] }

/-! ### The patterns of a game -/

/-- The list has what it had and what was pushed. -/
theorem mem_foldl_pushUnique {l v : List String} {s : String} :
    s ∈ l.foldl pushUnique v ↔ s ∈ v ∨ s ∈ l := by
  induction l generalizing v with
  | nil => simp
  | cons a l ih =>
      rw [List.foldl_cons, ih, pushUnique]
      by_cases ha : a ∈ v
      · rw [if_pos ha, List.mem_cons]
        constructor
        · tauto
        · rintro (h | rfl | h)
          · exact .inl h
          · exact .inl ha
          · exact .inr h
      · rw [if_neg ha, List.mem_append, List.mem_singleton, List.mem_cons, or_assoc]

section Patterns

variable {game : Game} {overrides : List PathOverride} {ctx : ResolveContext}
  {baseOverride : Option String} {pattern : String}

theorem mem_patterns_iff :
    pattern ∈ (resolveGame game overrides ctx baseOverride).patterns ↔
      ∃ template ∈ game.templates overrides,
        pattern ∈ ctx.expansions game baseOverride template := by
  rw [resolveGame, mem_foldl_pushUnique, List.mem_flatMap]
  simp

end Patterns

/-! ### What the anchor is -/

/-- On Windows, the names among the components hold no colon: no file there has one. -/
def ColonFree (style : PathStyle) (path : PathBuf) : Prop :=
  ∀ name, .normal name ∈ path → style = .windows → ':' ∉ name.toList

section Spec

variable {style : PathStyle} {pattern : String} {patterns : List String} {path rest : PathBuf}

theorem ColonFree.of_starts (h : ColonFree style path) (hrest : rest <+: path) :
    ColonFree style rest :=
  fun name hname => h name (hrest.subset hname)

theorem globFree_starts (style : PathStyle) (pattern : String) :
    globFree style pattern <+: components style pattern :=
  List.takeWhile_prefix _

/-- The part of a pattern in front of its first special character is no bare share. -/
theorem globFree_ne_share (style : PathStyle) (pattern server share : String) :
    globFree style pattern ≠ [.unc server share] := by
  intro heq
  have hstart := heq ▸ globFree_starts style pattern
  obtain ⟨rest, hrest⟩ := rooted_components style pattern server share hstart
  have hroot : isGlob (Component.rootDir.text style) = false := by
    cases style <;> rfl
  rw [globFree, ← hrest] at heq
  cases hglob : isGlob ((Component.unc server share).text style) with
  | true => simp [hglob] at heq
  | false => simp [List.takeWhile, hglob, hroot] at heq

/-- The directory that a pattern asks for is rooted. -/
theorem rooted_anchorCandidate (style : PathStyle) (pattern : String) :
    Rooted (anchorCandidate style pattern) := by
  rw [anchorCandidate]
  split
  · exact rooted_pushAll _
  · cases hparent : parent (pushAll style (globFree style pattern)) with
    | none => exact rooted_pushAll _
    | some rest => exact rooted_parent (rooted_pushAll _) hparent

/-- The anchor candidate of a pattern lies on or above its fixed part. -/
theorem anchorCandidate_starts (h : ColonFree style (globFree style pattern)) :
    anchorCandidate style pattern <+: globFree style pattern := by
  have hpush : pushAll style (globFree style pattern) = globFree style pattern :=
    pushAll_of_starts (globFree_starts style pattern) h (globFree_ne_share style pattern)
  rw [anchorCandidate, hpush]
  split
  · exact List.prefix_refl _
  · cases hparent : parent (globFree style pattern) with
    | none => exact List.prefix_refl _
    | some rest =>
        rw [Option.getD_some, (parent_eq_some hparent).1]
        exact List.dropLast_prefix _

/-- A directory is on or above `anchor` exactly when it is on or above every anchor
candidate: `anchor` is the deepest directory they share. -/
def Anchors (style : PathStyle) (patterns : List String) (anchor : PathBuf) : Prop :=
  ∀ dir, dir <+: anchor ↔ ∀ q ∈ patterns, dir <+: anchorCandidate style q

theorem anchors_commonStart (style : PathStyle) (first : String) (others : List String) :
    Anchors style (first :: others)
      (commonStart (anchorCandidate style first) (others.map (anchorCandidate style))) := by
  intro dir
  rw [le_commonStart_iff, List.forall_mem_cons, List.forall_mem_map]

theorem exists_anchors (style : PathStyle) (hne : patterns ≠ []) :
    ∃ root, Anchors style patterns root := by
  obtain ⟨first, others, rfl⟩ := List.exists_cons_of_ne_nil hne
  exact ⟨_, anchors_commonStart style first others⟩

theorem Anchors.unique (h : Anchors style patterns path) (h' : Anchors style patterns rest) :
    path = rest :=
  eq_of_starts fun dir => (h dir).trans (h' dir).symm

theorem Anchors.starts (h : Anchors style patterns path) (hpattern : pattern ∈ patterns)
    (hcolon : ColonFree style (globFree style pattern)) : path <+: globFree style pattern :=
  ((h path).mp (List.prefix_refl path) pattern hpattern).trans (anchorCandidate_starts hcolon)

/-- An anchor is no bare share. -/
theorem Anchors.ne_share (h : Anchors style patterns path) (server share : String) :
    path ≠ [.unc server share] := by
  intro heq
  -- every candidate then begins with the share, and so with its root
  have hroot : [.unc server share, .rootDir] <+: path := (h _).mpr fun q hq =>
    rooted_anchorCandidate style q server share ((h _).mp (heq ▸ List.prefix_refl _) q hq)
  rw [heq] at hroot
  exact absurd hroot.length_le (by simp)

/-- **The anchor.**  It is the deepest directory shared by all anchor candidates, provided
one of the patterns can match files. -/
theorem anchors_computeAnchor (roots : Roots) (hpattern : pattern ∈ patterns)
    (h : ColonFree style (globFree style pattern)) :
    Anchors style patterns (computeAnchor style patterns roots) := by
  obtain ⟨first, others, rfl⟩ := List.exists_cons_of_ne_nil (List.ne_nil_of_mem hpattern)
  have hanchors := anchors_commonStart style first others
  have hstarts := hanchors.starts hpattern h
  have hpush : computeAnchor style (first :: others) roots =
      commonStart (anchorCandidate style first) (others.map (anchorCandidate style)) :=
    pushAll_of_starts (hstarts.trans (globFree_starts style pattern)) (h.of_starts hstarts)
      hanchors.ne_share
  rw [hpush]
  exact hanchors

end Spec

end Savr
