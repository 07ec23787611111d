import Savr.Core.PlainFormat
import Savr.Daemon.ExeIndex

/-!
# Indexing the install directories

The exe index as `refresh_games` of `savr-daemon/src/engine.rs` fills it: the games of the Steam
libraries first, then those found in game folders, then the hand-registered ones, each with the
executables below its install directory.

## Main results

* `refreshIndex_eq` — the index is the one of the insertions of all games, in order.
* `lastClaim_of_last` — of the games that index a path, the last one counts.

## Design notes

The games are those that the refresh handles: neither ignored nor already seen under their
title.  The disk is what `read_dir` answers; a directory that cannot be read has no entries.
-/

namespace Savr

open KeyedMap

/-- What a directory entry is, as far as the walk cares. -/
inductive EntryKind
  | dir
  | executable
  | other
  deriving DecidableEq, Repr

/-- The directories, as the walk sees them. -/
structure ExeDisk where
  readDir : String → List (String × EntryKind)
  isDir : String → Bool

/-- `Path::parent`: the text up to where its components end. -/
def parentText (style : PathStyle) (path : String) : Option String :=
  (parent (components style path)).map fun up =>
    String.ofList
      ((path.toList.inits.find? fun t => components style (String.ofList t) = up).getD [])

section Index

variable (style : PathStyle) (disk : ExeDisk)

/-- `walk_exes`: the executables at most this deep below a directory. Entries are followed in
the order in which the directory lists them. -/
def walk : ℕ → String → List String
  | 0, dir => (disk.readDir dir).flatMap fun entry =>
      match entry.2 with
      | .executable => [join style dir entry.1]
      | _ => []
  | depth + 1, dir => (disk.readDir dir).flatMap fun entry =>
      match entry.2 with
      | .dir => walk depth (join style dir entry.1)
      | .executable => [join style dir entry.1]
      | .other => []

/-- The executables below a directory, up to a depth. -/
def findExecutables (dir : String) (maxDepth : ℕ) : List String := walk style disk maxDepth dir

/-- Where a game is. -/
inductive Location
  /-- The install directory of a Steam game or of one in a game folder. -/
  | installDir (dir : String)
  /-- The `install_path` of a hand-registered game. -/
  | custom (path : Option String)
  deriving DecidableEq, Repr

/-- A game that the refresh handles. -/
structure HandledGame where
  id : GameId
  location : Location
  deriving DecidableEq, Repr

/-- The executables that are inserted for a game, in order. A custom game may name its
executable instead of a directory. -/
def HandledGame.exes (game : HandledGame) : List String :=
  match game.location with
  | .installDir dir => findExecutables style disk dir 6
  | .custom none => []
  | .custom (some path) =>
      if disk.isDir path then findExecutables style disk path 6
      else
        -- the exe itself, and its parent directory for sibling launchers
        path :: match parentText style path with
          | some dir => if disk.isDir dir then findExecutables style disk dir 6 else []
          | none => []

end Index

section Refresh

variable (pf : Platform) (disk : ExeDisk)

/-- Index all executables of one game. -/
def indexGame (idx : ExeIndex) (game : HandledGame) : ExeIndex :=
  (game.exes pf.style disk).foldl (fun idx exe => idx.insertExe pf exe game.id) idx

/-- The index after a refresh that handles these games in order. -/
def refreshIndex (games : List HandledGame) : ExeIndex := games.foldl (indexGame pf disk) .new

/-- The games of a refresh: Steam games, games in game folders, hand-registered games. -/
def handledGames (steam folders : List (GameId × String))
    (custom : List (GameId × Option String)) : List HandledGame :=
  (steam.map fun g => ⟨g.1, .installDir g.2⟩) ++ (folders.map fun g => ⟨g.1, .installDir g.2⟩) ++
    custom.map fun g => ⟨g.1, .custom g.2⟩

/-- What a game inserts. -/
def HandledGame.claims (game : HandledGame) : List (String × GameId) :=
  (game.exes pf.style disk).map fun exe => (exe, game.id)

variable {pf disk} {games before after rest : List HandledGame} {game last : HandledGame}
  {e : String} {g : GameId}

theorem refreshIndex_eq (games : List HandledGame) :
    refreshIndex pf disk games = .ofClaims pf (games.flatMap (·.claims pf disk)) := by
  rw [refreshIndex, ExeIndex.ofClaims, List.foldl_flatMap]
  refine congrArg (fun f => games.foldl f ExeIndex.new) (funext fun idx => funext fun game => ?_)
  rw [indexGame, HandledGame.claims, List.foldl_map]

/-- The game inserts an executable with the key of the path. -/
def HandledGame.Indexes (pf : Platform) (disk : ExeDisk) (game : HandledGame) (e : String) : Prop :=
  ∃ exe ∈ game.exes pf.style disk, exeKey pf exe = exeKey pf e

theorem not_indexes_iff : ¬ game.Indexes pf disk e ↔
    ofPairs ((game.claims pf disk).map fun c => (exeKey pf c.1, c.2)) (exeKey pf e) = none := by
  rw [ofPairs_eq_none_iff, HandledGame.claims, List.map_map, List.map_map]
  simp [HandledGame.Indexes]

/-- An executable that a game indexes is found under the id of that game. -/
theorem ofPairs_claims (h : game.Indexes pf disk e) :
    ofPairs ((game.claims pf disk).map fun c => (exeKey pf c.1, c.2)) (exeKey pf e)
      = some game.id := by
  cases hlast : ofPairs ((game.claims pf disk).map fun c => (exeKey pf c.1, c.2))
      (exeKey pf e) with
  | none => exact absurd h (not_indexes_iff.mpr hlast)
  | some g =>
      obtain ⟨c, hc, heq⟩ := List.mem_map.mp (mem_of_ofPairs_eq_some hlast)
      obtain ⟨exe, -, rfl⟩ := List.mem_map.mp hc
      exact congrArg some (Prod.mk.inj heq).2.symm

/-- The claims of games come in the order of the games. -/
theorem lastClaim_concat (games : List HandledGame) (game : HandledGame) (e : String) :
    ExeIndex.lastClaim pf ((games ++ [game]).flatMap (·.claims pf disk)) e =
      (ofPairs ((game.claims pf disk).map fun c => (exeKey pf c.1, c.2)) (exeKey pf e)).or
        (ExeIndex.lastClaim pf (games.flatMap (·.claims pf disk)) e) := by
  rw [ExeIndex.lastClaim, List.flatMap_append, List.map_append, ofPairs_append,
    List.flatMap_singleton]
  rfl

/-- Games that do not index a path change nothing about it. -/
theorem lastClaim_of_not_indexes (h : ∀ game ∈ rest, ¬ game.Indexes pf disk e) :
    ExeIndex.lastClaim pf ((games ++ rest).flatMap (·.claims pf disk)) e
      = ExeIndex.lastClaim pf (games.flatMap (·.claims pf disk)) e := by
  induction rest using List.reverseRecOn with
  | nil => rw [List.append_nil]
  | append_singleton rest game ih =>
      rw [← List.append_assoc, lastClaim_concat, not_indexes_iff.mp (h game (by simp)),
        Option.none_or, ih fun game hgame => h game (List.mem_append_left _ hgame)]

/-- **Of the games that index a path, the last one counts.** -/
theorem lastClaim_of_last (hlast : last.Indexes pf disk e)
    (hrest : ∀ game ∈ rest, ¬ game.Indexes pf disk e) :
    ExeIndex.lastClaim pf ((before ++ last :: rest).flatMap (·.claims pf disk)) e
      = some last.id := by
  have hsplit : before ++ last :: rest = (before ++ [last]) ++ rest := by simp
  rw [hsplit, lastClaim_of_not_indexes hrest, lastClaim_concat, ofPairs_claims hlast,
    Option.some_or]

/-- The last game that indexes a path, if one does. -/
theorem exists_last_indexing (pf : Platform) (disk : ExeDisk) (games : List HandledGame)
    (e : String) : (∀ game ∈ games, ¬ game.Indexes pf disk e) ∨
      ∃ early last rest, games = early ++ last :: rest ∧ last.Indexes pf disk e ∧
        ∀ game ∈ rest, ¬ game.Indexes pf disk e := by
  induction games with
  | nil => exact .inl fun _ h => absurd h List.not_mem_nil
  | cons game games ih =>
      rcases ih with hnone | ⟨early, last, rest, rfl, hlast, hrest⟩
      · by_cases hgame : game.Indexes pf disk e
        · exact .inr ⟨[], game, games, rfl, hgame, hnone⟩
        · exact .inl (List.forall_mem_cons.mpr ⟨hgame, hnone⟩)
      · exact .inr ⟨game :: early, last, rest, rfl, hlast, hrest⟩

/-- **Whose executable it is after a refresh.**  An executable below the install directory of a
Steam game or of one in a game folder is matched to that game by its path exactly when the last
of the games handled later that indexes it too, if there is one, is this very game. -/
theorem installed_exe_matches_iff (before : List HandledGame) (game : HandledGame)
    (after : List HandledGame) {steam folders : List (GameId × String)}
    {custom : List (GameId × Option String)} {dir : String}
    (handled : handledGames steam folders custom = before ++ game :: after)
    (installed : game.location = .installDir dir)
    (within : e ∈ findExecutables pf.style disk dir 6) :
    (refreshIndex pf disk (handledGames steam folders custom)).matchExe pf e
        = some (game.id, .path) ↔
      ∀ early last rest, after = early ++ last :: rest → last.Indexes pf disk e →
        (∀ later ∈ rest, ¬ later.Indexes pf disk e) → last.id = game.id := by
  have hgame : game.Indexes pf disk e := by
    refine ⟨e, ?_, rfl⟩
    rw [HandledGame.exes, installed]
    exact within
  rw [refreshIndex_eq, ExeIndex.matchExe_eq_path_iff, handled]
  constructor
  · rintro hmatch early last rest rfl hlast hrest
    have hsplit : before ++ game :: (early ++ last :: rest)
        = (before ++ game :: early) ++ last :: rest := by simp
    rw [hsplit, lastClaim_of_last hlast hrest] at hmatch
    exact Option.some.inj hmatch
  · intro h
    rcases exists_last_indexing pf disk after e with hnone | ⟨early, last, rest, rfl, hlast, hrest⟩
    · exact lastClaim_of_last hgame hnone
    · have hsplit : before ++ game :: (early ++ last :: rest)
          = (before ++ game :: early) ++ last :: rest := by simp
      rw [hsplit, lastClaim_of_last hlast hrest, h early last rest rfl hlast hrest]

end Refresh

section Example

/-- A folder of games, with one game in it and an executable beside that. -/
def gamesFolder : ExeDisk where
  readDir path :=
    if path = "/games" then [("Celeste", .dir), ("tool", .executable)]
    else if path = "/games/Celeste" then [("run", .executable)]
    else if path = "/opt/tool" then [("tool", .executable)]
    else []
  isDir path := path = "/games" || path = "/games/Celeste" || path = "/opt/tool"

/-- A hand-registered executable in the common folder takes over the game beside it. -/
theorem sibling_exe_takes_over :
    "/games/Celeste/run" ∈ findExecutables .unix gamesFolder "/games/Celeste" 6 ∧
      (refreshIndex linux gamesFolder
        (handledGames [] [(1, "/games/Celeste")] [(2, some "/games/tool")])).matchExe linux
          "/games/Celeste/run" = some (2, .path) := by
  decide +kernel

/-- One in a directory of its own does not. -/
theorem separate_exe_keeps_out :
    (refreshIndex linux gamesFolder
      (handledGames [] [(1, "/games/Celeste")] [(2, some "/opt/tool/tool")])).matchExe linux
        "/games/Celeste/run" = some (1, .path) := by
  refine (installed_exe_matches_iff [] ⟨1, .installDir "/games/Celeste"⟩
    [⟨2, .custom (some "/opt/tool/tool")⟩] rfl rfl (by decide +kernel)).mpr ?_
  rintro early last rest hsplit ⟨exe, hexe, hkey⟩ -
  have hlast : last ∈ [(⟨2, .custom (some "/opt/tool/tool")⟩ : HandledGame)] := by
    rw [hsplit]
    simp
  have hnone : "/games/Celeste/run" ∉ HandledGame.exes .unix gamesFolder
      ⟨2, .custom (some "/opt/tool/tool")⟩ := by decide +kernel
  obtain rfl : exe = "/games/Celeste/run" := hkey
  rw [List.mem_singleton.mp hlast] at hexe
  exact absurd hexe hnone

end Example

end Savr
