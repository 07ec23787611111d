import Savr.Core.PlainDigest
import Savr.Server.Service

/-!
# The catalog and the identity of its games

`game_id_for` and the loops of `refresh_games` of `savr-daemon/src/engine.rs`, with
`normalize_title` of `naming.rs`.

The daemon keys the identity of a game by its appid, or by its normalized title; what it
stores under the key is the id the server gave it, or one it drew itself where the server
could not be asked.  The server keys a game without an appid by its exact title.

What `Uuid::parse_str` makes of a stored text is part of the store: `none` is a text that is
no id.

## Main results

* `name_identity_agrees_iff` — when two devices agree on a game without an appid.
-/

namespace Savr

open LabelledRun

/-- Lowercase and strip every non-ASCII-alphanumeric character. -/
def normalizeTitle (title : String) : String :=
  String.ofList ((title.toList.filter Char.isAlphanum).map Char.toLower)

/-- The meta key under which the id of a game is stored. -/
def gameKey (appid : Option ℕ) (title : String) : String :=
  match appid with
  | some a => "gameid:steam:" ++ toString a
  | none => "gameid:name:" ++ normalizeTitle title

/-- The ids in the `meta` table. -/
abbrev GameIds := String → Option (Option GameId)

/-- What happens to a request and its reply on the way. -/
inductive Delivery
  | answered
  | lost
  | replyLost
  deriving DecidableEq, Repr

/-- What the environment decides about one call of `game_id_for`: whether the daemon's own
table can be used, what becomes of the request, and the ids that are drawn. -/
structure IdentityEnv where
  /-- `get_meta` and `set_meta` succeed. -/
  readOk : Bool
  saved : Bool
  delivery : Delivery
  /-- The id the server draws, and the one the daemon draws. -/
  serverId : GameId
  localId : GameId
  deriving DecidableEq, Repr

/-- `ServerClient::ensure_game`: the server afterwards, and the game if the call
succeeds. -/
def requestGame (s : Server) (account : AccountId) (appid : Option ℕ) (title : String)
    (env : IdentityEnv) : Server × Option EnsuredGame :=
  let (db, reply) := s.db.ensureGame account title appid env.serverId
  match env.delivery with
  | .lost => (s, none)
  | .replyLost => ({ s with db }, none)
  | .answered => ({ s with db }, reply.toOption)

/-- The local store and the server after a call, and the id it returns. -/
structure Identified where
  ids : GameIds
  server : Server
  id : GameId

/-- Store an id under its key, unless the write fails. -/
def setMeta (ids : GameIds) (saved : Bool) (key : String) (id : GameId) : GameIds :=
  if saved then Function.update ids key (some (some id)) else ids

/-- Without the server: the cached id, else a new one, which is only stored where the key
is known to be absent. -/
def localIdentity (ids : GameIds) (s : Server) (key : String) (cached : Option GameId)
    (env : IdentityEnv) : Identified :=
  match cached with
  | some id => { ids, server := s, id }
  | none =>
      { ids := setMeta ids (env.readOk && env.saved) key env.localId, server := s
        id := env.localId }

/-- Stable id of a game; `account` is the account to ask the server for, if the device is
authenticated and the refresh enriches the ids. -/
def gameIdFor (ids : GameIds) (s : Server) (account : Option AccountId) (appid : Option ℕ)
    (title : String) (env : IdentityEnv) : Identified :=
  let key := gameKey appid title
  let cached := if env.readOk then (ids key).join else none
  match account with
  | none => localIdentity ids s key cached env
  | some account =>
      match requestGame s account appid title env with
      | (s', some ensured) =>
          { ids := setMeta ids (cached ≠ some ensured.id && env.saved) key ensured.id
            server := s', id := ensured.id }
      | (s', none) => localIdentity ids s' key cached env

/-! ### Refreshing the catalog -/

/-- A game that a scan finds. -/
structure FoundGame where
  title : String
  source : GameSource
  steamAppid : Option ℕ
  saveTargets : List SaveTarget
  deriving DecidableEq, Repr

/-- What the scans find that is not ignored: the Steam libraries, and then the game folders
and the hand-registered games. -/
structure Library where
  steam : List (FoundGame × IdentityEnv)
  others : List (FoundGame × IdentityEnv)

/-- The catalog while a scan builds it; it holds one game for each id. -/
structure Scan where
  ids : GameIds
  server : Server
  games : List Game

/-- One game of a scan: its id is minted or looked up, and it replaces a game of that id. The
later game of two with one id is the one that is listed. -/
def Scan.add (account : Option AccountId) (c : Scan) (g : FoundGame) (env : IdentityEnv) :
    Scan :=
  let r := gameIdFor c.ids c.server account g.steamAppid g.title env
  { ids := r.ids
    server := r.server
    games := (c.games.filter fun h => h.id ≠ r.id) ++
      [{ id := r.id, title := g.title, source := g.source, steamAppid := g.steamAppid,
         saveTargets := g.saveTargets }] }

/-- The later sources never duplicate a game that an earlier one has added. -/
def Scan.addUnseen (account : Option AccountId) :
    List String → Scan → List (FoundGame × IdentityEnv) → Scan
  | _, c, [] => c
  | seen, c, (g, env) :: gs =>
      if normalizeTitle g.title ∈ seen then Scan.addUnseen account seen c gs
      else Scan.addUnseen account (normalizeTitle g.title :: seen) (c.add account g env) gs

/-- Rebuild the catalog. -/
def refreshGames (ids : GameIds) (s : Server) (enrichIds : Bool) (account : Option AccountId)
    (library : Library) : Scan :=
  let account := if enrichIds then account else none
  let steam := library.steam.foldl (fun c g => c.add account g.1 g.2) ⟨ids, s, []⟩
  Scan.addUnseen account (steam.games.map fun g => normalizeTitle g.title) steam library.others

section Identity

variable {ids : GameIds} {s s' : Server} {account : AccountId} {appid : Option ℕ}
  {title : String} {env : IdentityEnv} {game : EnsuredGame}

/-- An answered request for a game without an appid is answered with a row of this very
title. -/
theorem requestGame_some (h : requestGame s account none title env = (s', some game)) :
    ∃ row ∈ s'.db.games, row.key = (game.id, account, title) := by
  unfold requestGame at h
  rcases s.db.ensureGame_cases account title none env.serverId with
    ⟨row, hfind, -⟩ | ⟨-, ⟨row, hrow, heq⟩ | ⟨-, ⟨e, heq⟩ | ⟨-, heq⟩⟩⟩
  · cases hfind
  · obtain ⟨hmem, hacc, htitle⟩ := Db.findByTitle_some hrow
    rw [heq] at h
    cases hdelivery : env.delivery <;> simp only [hdelivery] at h <;> cases h
    exact ⟨row, hmem, by rw [← hacc, ← htitle]; rfl⟩
  · rw [heq] at h
    cases hdelivery : env.delivery <;> simp only [hdelivery] at h <;> cases h
  · rw [heq] at h
    cases hdelivery : env.delivery <;> simp only [hdelivery] at h <;> cases h
    exact ⟨_, List.mem_append_right _ (List.mem_singleton_self _), rfl⟩

/-- A successful request decides the id, whatever is stored locally. -/
theorem gameIdFor_of_requestGame (ids : GameIds)
    (h : requestGame s account appid title env = (s', some game)) :
    (gameIdFor ids s (some account) appid title env).server = s' ∧
      (gameIdFor ids s (some account) appid title env).id = game.id := by
  simp [gameIdFor, h]

theorem later_requestGame : s.Later (requestGame s account appid title env).1 := by
  unfold requestGame
  cases env.delivery with
  | lost => exact Db.Later.refl s.db
  | replyLost => exact Db.later_ensureGame title appid env.serverId
  | answered => exact Db.later_ensureGame title appid env.serverId

theorem localIdentity_server {key : String} {cached : Option GameId} :
    (localIdentity ids s key cached env).server = s := by
  unfold localIdentity
  cases cached <;> rfl

/-- The server only sees the request. -/
theorem gameIdFor_server : (gameIdFor ids s (some account) appid title env).server =
    (requestGame s account appid title env).1 := by
  cases hrequest : requestGame s account appid title env with
  | mk s' reply =>
      cases reply with
      | some ensured => simp only [gameIdFor, hrequest]
      | none => simp only [gameIdFor, hrequest, localIdentity_server]

/-- Asking for an id at most adds a game to the server. -/
theorem later_gameIdFor (account : Option AccountId) :
    s.Later (gameIdFor ids s account appid title env).server := by
  cases account with
  | none =>
      simp only [gameIdFor, localIdentity_server]
      exact Db.Later.refl s.db
  | some account =>
      rw [gameIdFor_server]
      exact later_requestGame

theorem Scan.later_add (account : Option AccountId) (c : Scan) (g : FoundGame)
    (env : IdentityEnv) : c.server.Later (c.add account g env).server :=
  later_gameIdFor account

/-- Scanning for further games only adds games to the server. -/
theorem later_addUnseen (account : Option AccountId) (seen : List String) (c : Scan)
    (gs : List (FoundGame × IdentityEnv)) :
    c.server.Later (Scan.addUnseen account seen c gs).server := by
  induction gs generalizing seen c with
  | nil => exact Db.Later.refl c.server.db
  | cons g gs ih =>
      unfold Scan.addUnseen
      split
      · exact ih seen c
      · exact Db.Later.trans (c.later_add account g.1 g.2) (ih _ _)

/-- **A refresh** only registers games. -/
theorem later_refreshGames (enrichIds : Bool) (account : Option AccountId) (library : Library) :
    s.Later (refreshGames ids s enrichIds account library).server := by
  refine Db.Later.trans ?_ (later_addUnseen _ _ _ _)
  generalize (if enrichIds then account else none) = account
  have hfold : ∀ (gs : List (FoundGame × IdentityEnv)) (c : Scan),
      c.server.Later (gs.foldl (fun c g => c.add account g.1 g.2) c).server := by
    intro gs
    induction gs with
    | nil => exact fun c => Db.Later.refl c.server.db
    | cons g gs ih =>
        exact fun c => Db.Later.trans (c.later_add account g.1 g.2) (ih (c.add account g.1 g.2))
  exact hfold library.steam ⟨ids, s, []⟩

end Identity

/-! ### Two devices -/

section Agreement

variable [Blake3]

/-- **Exactly when two devices agree on a game without an appid.**  Two devices of an
account, with any local state, ask for two titles; the server answers both, whatever it does
in between.  That titles with one normalized form get the same id says that they are spelled
the same. -/
theorem name_identity_agrees_iff {ids₁ ids₂ : GameIds} {s₁ s₁' s₂ s₂' : Server}
    {account : AccountId} {t₁ t₂ : String} {env₁ env₂ : IdentityEnv} {g₁ g₂ : EnsuredGame}
    {between : List ServiceEvent} (keys : s₁.db.GameKeys)
    (hok₁ : requestGame s₁ account none t₁ env₁ = (s₁', some g₁))
    (run : Run ServiceStep (gameIdFor ids₁ s₁ (some account) none t₁ env₁).server between s₂)
    (hok₂ : requestGame s₂ account none t₂ env₂ = (s₂', some g₂)) :
    (normalizeTitle t₁ = normalizeTitle t₂ →
      (gameIdFor ids₁ s₁ (some account) none t₁ env₁).id =
        (gameIdFor ids₂ s₂ (some account) none t₂ env₂).id) ↔
    (normalizeTitle t₁ = normalizeTitle t₂ → t₁ = t₂) := by
  refine imp_congr_right fun _ => ?_
  obtain ⟨hserver, hid₁⟩ := gameIdFor_of_requestGame ids₁ hok₁
  obtain ⟨-, hid₂⟩ := gameIdFor_of_requestGame ids₂ hok₂
  rw [hid₁, hid₂]
  rw [hserver] at run
  obtain ⟨row₁, hrow₁, hkey₁⟩ := requestGame_some hok₁
  obtain ⟨row₂, hrow₂, hkey₂⟩ := requestGame_some hok₂
  -- the first device's row is still there when the second has been answered
  have hlater : s₁'.Later s₂' := by
    have hlast : s₂.Later (requestGame s₂ account none t₂ env₂).1 := later_requestGame
    rw [hok₂] at hlast
    exact Db.Later.trans (Server.Later.of_run run) hlast
  have hfirst : s₁.Later (requestGame s₁ account none t₁ env₁).1 := later_requestGame
  rw [hok₁] at hfirst
  have keys' : s₂'.db.GameKeys := hlater.keys (hfirst.keys keys)
  obtain ⟨row, hrow, hkey⟩ := hlater.games row₁ hrow₁
  rw [hkey₁] at hkey
  simp only [GameRow.key, Prod.mk.injEq] at hkey hkey₂
  constructor
  · intro hid
    have hsame := keys'.eq_of_id hrow hrow₂ (by rw [hkey.1, hkey₂.1, hid])
    rw [← hkey.2.2, ← hkey₂.2.2, hsame]
  · rintro rfl
    have hsame := keys'.eq_of_title hrow hrow₂ (hkey.2.1.trans hkey₂.2.1.symm)
      (hkey.2.2.trans hkey₂.2.2.symm)
    rw [← hkey.1, ← hkey₂.1, hsame]

end Agreement

section Example

local instance catalogDigest : Blake3 := plainDigest

/-- One account, two devices, no game yet. -/
def newAccountServer : Server where
  db :=
    { accounts := [1]
      devices := [⟨21, 1, "desktop", .windows, "", none, false⟩,
        ⟨22, 1, "deck", .linux, "", none, false⟩]
      blobs := [], games := [], versions := [], config := [], resolvedConflicts := [] }
  objects := fun _ => none

/-- A call that nothing disturbs. -/
def undisturbed (serverId : GameId) : IdentityEnv where
  readOk := true
  saved := true
  delivery := .answered
  serverId := serverId
  localId := 0

/-- The desktop registers its copy of the game. -/
def afterDesktop : Server :=
  (gameIdFor (fun _ => none) newAccountServer (some 1) none "Hollow Knight"
    (undisturbed 31)).server

/-- Two devices that spell a title alike get the same id for it. -/
theorem same_spelling_agrees :
    (gameIdFor (fun _ => none) newAccountServer (some 1) none "Hollow Knight"
      (undisturbed 31)).id =
    (gameIdFor (fun _ => some none) afterDesktop (some 1) none "Hollow Knight"
      (undisturbed 32)).id := by
  have hdesktop : requestGame newAccountServer 1 none "Hollow Knight" (undisturbed 31) =
      (afterDesktop, some ⟨31, "Hollow Knight", none, none⟩) := rfl
  have hdeck : requestGame afterDesktop 1 none "Hollow Knight" (undisturbed 32) =
      (afterDesktop, some ⟨31, "Hollow Knight", none, none⟩) := rfl
  exact (name_identity_agrees_iff ⟨by decide, by decide⟩ hdesktop Run.nil hdeck).mpr
    (fun _ => rfl) rfl

/-- **The folder names of the two devices spell the title differently**: the local key of the
game is the same, and its ids are not. -/
theorem hollow_knight_split :
    normalizeTitle "Hollow Knight" = normalizeTitle "HollowKnight" ∧
    (requestGame newAccountServer 1 none "Hollow Knight" (undisturbed 31)).2.isSome = true ∧
    (requestGame afterDesktop 1 none "HollowKnight" (undisturbed 32)).2.isSome = true ∧
    (gameIdFor (fun _ => none) newAccountServer (some 1) none "Hollow Knight"
      (undisturbed 31)).id ≠
    (gameIdFor (fun _ => none) afterDesktop (some 1) none "HollowKnight"
      (undisturbed 32)).id := by
  decide

end Example

end Savr
