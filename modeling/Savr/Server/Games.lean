import Savr.Lib.Run
import Savr.Server.Db

/-!
# Registering games

`ensure_game` of `savr-server/src/db.rs`.  A call with an appid is looked up by the appid;
where that finds nothing, and for a game without an appid, the row is inserted under its
title, and a row that already has the title is taken instead.

## Main results

* `Db.ensureGame_cases` — everything a call can do.
* `appid_identity_iff` — when appids identify the games of an account, over every sequence
  of calls.
-/

namespace Savr

open LabelledRun

/-- A game as the server returns it from `POST /games`. -/
structure EnsuredGame where
  id : GameId
  title : String
  steamAppid : Option ℕ
  head : Option VersionId
  deriving DecidableEq, Repr

/-- What the response tells of a row. -/
def GameRow.ensured (g : GameRow) : EnsuredGame where
  id := g.id
  title := g.title
  steamAppid := g.steamAppid
  head := g.head

namespace Db

/-- `SELECT … WHERE account_id = ? AND steam_appid = ?`. -/
def findByAppid (db : Db) (account : AccountId) (appid : ℕ) : Option GameRow :=
  db.games.find? fun g => g.accountId = account ∧ g.steamAppid = some appid

/-- `SELECT … WHERE account_id = ? AND title = ?`. -/
def findByTitle (db : Db) (account : AccountId) (title : String) : Option GameRow :=
  db.games.find? fun g => g.accountId = account ∧ g.title = title

/-- `INSERT INTO games … ON CONFLICT(account_id, title) DO NOTHING`. -/
def insertGame (db : Db) (row : GameRow) : Except ApiError Db :=
  if (db.findByTitle row.accountId row.title).isSome then .ok db
  else if db.games.any (fun g => g.id = row.id) then
    .error (.internal "UNIQUE constraint failed")
  else if row.accountId ∈ db.accounts then .ok { db with games := db.games ++ [row] }
  else .error (.internal "FOREIGN KEY constraint failed")

/-- Ensure a game exists for this account. An appid decides first; a title that is taken
leads to the row that has it, whatever its appid. -/
def ensureGame (db : Db) (account : AccountId) (title : String) (steamAppid : Option ℕ)
    (id : GameId) : Db × Except ApiError EnsuredGame :=
  match steamAppid.bind (db.findByAppid account) with
  | some row => (db, .ok row.ensured)
  | none =>
      match db.insertGame { id, accountId := account, title, steamAppid, head := none } with
      | .error e => (db, .error e)
      | .ok db' =>
          (db', match db'.findByTitle account title with
            | some row => .ok row.ensured
            | none => .error (.internal
                "no rows returned by a query that expected to return at least one row"))

/-- The primary key of `games` and `UNIQUE(account_id, title)`. -/
structure GameKeys (db : Db) : Prop where
  ids : (db.games.map GameRow.id).Nodup
  titles : (db.games.map fun g => (g.accountId, g.title)).Nodup

variable {db : Db} {account : AccountId} {title : String} {steamAppid : Option ℕ} {id : GameId}

theorem findByAppid_some {appid : ℕ} {row : GameRow}
    (h : db.findByAppid account appid = some row) :
    row ∈ db.games ∧ row.accountId = account ∧ row.steamAppid = some appid := by
  rw [findByAppid] at h
  exact ⟨List.mem_of_find?_eq_some h, by simpa using List.find?_some h⟩

theorem findByAppid_none {appid : ℕ} (h : db.findByAppid account appid = none) :
    ∀ g ∈ db.games, g.accountId = account → g.steamAppid ≠ some appid := by
  intro g hg hacc happid
  simpa [hacc, happid] using List.find?_eq_none.mp h g hg

theorem findByTitle_some {row : GameRow} (h : db.findByTitle account title = some row) :
    row ∈ db.games ∧ row.accountId = account ∧ row.title = title := by
  rw [findByTitle] at h
  exact ⟨List.mem_of_find?_eq_some h, by simpa using List.find?_some h⟩

theorem findByTitle_none (h : db.findByTitle account title = none) :
    ∀ g ∈ db.games, g.accountId = account → g.title ≠ title := by
  intro g hg hacc htitle
  simpa [hacc, htitle] using List.find?_eq_none.mp h g hg

theorem GameKeys.eq_of_title (keys : db.GameKeys) {g g' : GameRow} (hg : g ∈ db.games)
    (hg' : g' ∈ db.games) (hacc : g.accountId = g'.accountId) (htitle : g.title = g'.title) :
    g = g' :=
  List.inj_on_of_nodup_map keys.titles hg hg' (by rw [hacc, htitle])

theorem GameKeys.eq_of_id (keys : db.GameKeys) {g g' : GameRow} (hg : g ∈ db.games)
    (hg' : g' ∈ db.games) (hid : g.id = g'.id) : g = g' :=
  List.inj_on_of_nodup_map keys.ids hg hg' hid

/-- **Everything `ensure_game` can do**: find the appid, fall back on a row with the title,
fail, or insert a row whose id and title are new. -/
theorem ensureGame_cases (db : Db) (account : AccountId) (title : String)
    (steamAppid : Option ℕ) (id : GameId) :
    (∃ row, steamAppid.bind (db.findByAppid account) = some row ∧
      db.ensureGame account title steamAppid id = (db, .ok row.ensured)) ∨
    steamAppid.bind (db.findByAppid account) = none ∧
      ((∃ row, db.findByTitle account title = some row ∧
        db.ensureGame account title steamAppid id = (db, .ok row.ensured)) ∨
      db.findByTitle account title = none ∧
        ((∃ e, db.ensureGame account title steamAppid id = (db, .error e)) ∨
        ((∀ g ∈ db.games, g.id ≠ id) ∧
          db.ensureGame account title steamAppid id =
            ({ db with games := db.games ++ [⟨id, account, title, steamAppid, none⟩] },
              .ok ⟨id, title, steamAppid, none⟩)))) := by
  unfold ensureGame
  cases happid : steamAppid.bind (db.findByAppid account) with
  | some row => exact Or.inl ⟨row, rfl, rfl⟩
  | none =>
      refine Or.inr ⟨rfl, ?_⟩
      cases htitle : db.findByTitle account title with
      | some row =>
          refine Or.inl ⟨row, rfl, ?_⟩
          simp [insertGame, htitle]
      | none =>
          refine Or.inr ⟨rfl, ?_⟩
          by_cases hid : db.games.any (fun g => g.id = id) = true
          · refine Or.inl ⟨.internal "UNIQUE constraint failed", ?_⟩
            simp only [insertGame, htitle, hid]
            rfl
          · by_cases hacc : account ∈ db.accounts
            · refine Or.inr ⟨by simpa using hid, ?_⟩
              -- the row just inserted is the only one with the title
              have hfind : findByTitle
                  { db with games := db.games ++ [⟨id, account, title, steamAppid, none⟩] }
                  account title = some ⟨id, account, title, steamAppid, none⟩ := by
                rw [findByTitle] at htitle ⊢
                rw [List.find?_append, htitle]
                simp
              simp only [insertGame, htitle, hid, hacc]
              simp [hfind, GameRow.ensured]
            · refine Or.inl ⟨.internal "FOREIGN KEY constraint failed", ?_⟩
              simp [insertGame, htitle, hid, hacc]

/-- The constraints are kept. -/
theorem GameKeys.ensureGame (keys : db.GameKeys) :
    (db.ensureGame account title steamAppid id).1.GameKeys := by
  rcases db.ensureGame_cases account title steamAppid id with
    ⟨row, -, heq⟩ | ⟨-, ⟨row, -, heq⟩ | ⟨htitle, ⟨e, heq⟩ | ⟨hid, heq⟩⟩⟩
  · rwa [heq]
  · rwa [heq]
  · rwa [heq]
  · rw [heq]
    constructor
    · rw [List.map_append, List.nodup_append]
      refine ⟨keys.ids, by simp, ?_⟩
      intro a ha b hb
      obtain ⟨g, hg, rfl⟩ := List.mem_map.mp ha
      obtain rfl : b = id := by simpa using hb
      exact hid g hg
    · rw [List.map_append, List.nodup_append]
      refine ⟨keys.titles, by simp, ?_⟩
      rintro a ha b hb rfl
      obtain ⟨g, hg, hkey⟩ := List.mem_map.mp ha
      obtain rfl : a = (account, title) := by simpa using hb
      exact findByTitle_none htitle g hg (Prod.mk.inj hkey).1 (Prod.mk.inj hkey).2

end Db

/-! ### Sequences of calls -/

/-- A call of `ensure_game`, with the id the server draws for it. -/
structure GameCall where
  account : AccountId
  title : String
  steamAppid : Option ℕ
  id : GameId
  deriving DecidableEq, Repr

/-- `ensure_game`, for a call. -/
def Db.ensure (db : Db) (c : GameCall) : Db × Except ApiError EnsuredGame :=
  db.ensureGame c.account c.title c.steamAppid c.id

/-- A call as it happened: the database it found, and its reply. -/
structure Ensured where
  before : Db
  call : GameCall
  reply : Except ApiError EnsuredGame

/-- One call after the other. -/
def EnsureStep : Db → Ensured → Db → Prop :=
  fun db x db' => x.before = db ∧ db.ensure x.call = (db', x.reply)

namespace Ensured

/-- Another game already holds the title that comes with an appid seen for the first
time. -/
def holder (x : Ensured) : Option GameRow :=
  if x.call.steamAppid ≠ none ∧
      x.call.steamAppid.bind (x.before.findByAppid x.call.account) = none then
    x.before.findByTitle x.call.account x.call.title
  else none

/-- The call was answered with this game. -/
def Answered (x : Ensured) (account : AccountId) (game : EnsuredGame) : Prop :=
  x.call.account = account ∧ x.reply = .ok game

end Ensured

/-- Any two calls of the account with appids return the same game id if and only if the
appids are the same. -/
def AppidIdentity (account : AccountId) (trace : List Ensured) : Prop :=
  ∀ x ∈ trace, ∀ y ∈ trace, ∀ a b gx gy, x.call.steamAppid = some a →
    y.call.steamAppid = some b → x.Answered account gx → y.Answered account gy →
    (gx.id = gy.id ↔ a = b)

/-- Where a new appid comes with a title that another game holds, this game has no appid of
its own, and exactly the calls with this appid run into it. -/
def HoldersAgree (account : AccountId) (trace : List Ensured) : Prop :=
  ∀ x ∈ trace, ∀ gx, x.Answered account gx → ∀ row, x.holder = some row →
    row.steamAppid = none ∧ ∀ y ∈ trace, ∀ gy, y.Answered account gy →
      y.call.steamAppid ≠ none →
      (y.call.steamAppid = x.call.steamAppid ↔ y.holder = some row)

/-- What is known of an answered call in the games that are stored now. -/
structure Ensured.Filed (x : Ensured) (account : AccountId) (games : List GameRow)
    (game : EnsuredGame) (row : GameRow) : Prop where
  mem : row ∈ games
  account : row.accountId = account
  game : game = row.ensured
  held : ∀ holder, x.holder = some holder → row = holder ∧ row.steamAppid ≠ x.call.steamAppid
  own : x.call.steamAppid ≠ none → x.holder = none → row.steamAppid = x.call.steamAppid

/-- The games of an account after a sequence of calls: at most one for each appid, and each
call is answered with one of them. -/
structure Registry (account : AccountId) (trace : List Ensured) (db : Db) : Prop where
  keys : db.GameKeys
  appids : ∀ g ∈ db.games, ∀ g' ∈ db.games, g.accountId = account → g'.accountId = account →
    g.steamAppid ≠ none → g.steamAppid = g'.steamAppid → g = g'
  /-- A row with an appid answered a call with this appid. -/
  origin : ∀ g ∈ db.games, g.accountId = account → g.steamAppid ≠ none →
    ∃ x ∈ trace, x.call.steamAppid = g.steamAppid ∧ x.Answered account g.ensured
  filed : ∀ x ∈ trace, ∀ game, x.Answered account game →
    ∃ row, x.Filed account db.games game row

section Steps

variable {db db' db₀ : Db} {x : Ensured} {trace : List Ensured} {account : AccountId}
  {game : EnsuredGame} {row : GameRow} {games games' : List GameRow}

theorem Ensured.holder_eq (happid : x.call.steamAppid ≠ none)
    (hnone : x.call.steamAppid.bind (x.before.findByAppid x.call.account) = none) :
    x.holder = x.before.findByTitle x.call.account x.call.title :=
  if_pos ⟨happid, hnone⟩

theorem Ensured.holder_of_found
    (hsome : x.call.steamAppid.bind (x.before.findByAppid x.call.account) = some row) :
    x.holder = none :=
  if_neg (by simp [hsome])

/-- A game found by its appid has it. -/
theorem Db.bind_findByAppid_some {steamAppid : Option ℕ}
    (h : steamAppid.bind (db.findByAppid account) = some row) :
    row ∈ db.games ∧ row.accountId = account ∧ row.steamAppid = steamAppid := by
  obtain ⟨a, rfl, hfind⟩ := Option.bind_eq_some_iff.mp h
  exact Db.findByAppid_some hfind

theorem Db.bind_findByAppid_none {steamAppid : Option ℕ} (happid : steamAppid ≠ none)
    (h : steamAppid.bind (db.findByAppid account) = none) :
    ∀ g ∈ db.games, g.accountId = account → g.steamAppid ≠ steamAppid := by
  obtain ⟨a, rfl⟩ := Option.ne_none_iff_exists'.mp happid
  exact Db.findByAppid_none h

theorem Ensured.Filed.mono (h : x.Filed account games game row)
    (hsub : ∀ g ∈ games, g ∈ games') : x.Filed account games' game row :=
  ⟨hsub row h.mem, h.account, h.game, h.held, h.own⟩

/-- A call that inserts nothing. -/
theorem Registry.answer (h : Registry account trace db)
    (hx : ∀ game, x.Answered account game → ∃ row, x.Filed account db.games game row) :
    Registry account (trace ++ [x]) db := by
  refine ⟨h.keys, h.appids, ?_, ?_⟩
  · intro g hg hacc happid
    obtain ⟨y, hy, hy'⟩ := h.origin g hg hacc happid
    exact ⟨y, List.mem_append_left _ hy, hy'⟩
  · intro y hy game hanswered
    rcases List.mem_append.mp hy with hy | hy
    · exact h.filed y hy game hanswered
    · obtain rfl := List.mem_singleton.mp hy
      exact hx game hanswered

/-- A call that inserts its own row. -/
theorem Registry.insert (h : Registry account trace x.before)
    (hnone : x.call.steamAppid.bind (x.before.findByAppid x.call.account) = none)
    (htitle : x.before.findByTitle x.call.account x.call.title = none)
    (hgames : db'.games = x.before.games ++
      [⟨x.call.id, x.call.account, x.call.title, x.call.steamAppid, none⟩])
    (hreply : x.reply = .ok ⟨x.call.id, x.call.title, x.call.steamAppid, none⟩)
    (keys : db'.GameKeys) : Registry account (trace ++ [x]) db' := by
  have hold : ∀ g ∈ x.before.games, g ∈ db'.games := by
    rw [hgames]
    exact fun g hg => List.mem_append_left _ hg
  have hcases : ∀ g ∈ db'.games, g ∈ x.before.games ∨
      g = ⟨x.call.id, x.call.account, x.call.title, x.call.steamAppid, none⟩ := by
    intro g hg
    rw [hgames] at hg
    exact (List.mem_append.mp hg).imp_right List.mem_singleton.mp
  have hholder : x.holder = none := by
    unfold Ensured.holder
    rw [htitle]
    exact ite_self none
  -- the appid was looked up first, so no row of the account has it
  have hnew : ∀ g ∈ x.before.games, g.accountId = x.call.account → x.call.steamAppid ≠ none →
      g.steamAppid ≠ x.call.steamAppid := fun g hg hacc happid =>
    Db.bind_findByAppid_none happid hnone g hg hacc
  refine ⟨keys, ?_, ?_, ?_⟩
  · intro g hg g' hg' hacc hacc' happid heq
    rcases hcases g hg with hg | rfl <;> rcases hcases g' hg' with hg' | rfl
    · exact h.appids g hg g' hg' hacc hacc' happid heq
    · exact absurd heq (hnew g hg (hacc.trans hacc'.symm)
        fun hnone => happid (heq.trans hnone))
    · exact absurd heq.symm (hnew g' hg' (hacc'.trans hacc.symm) happid)
    · rfl
  · intro g hg hacc happid
    rcases hcases g hg with hg | rfl
    · obtain ⟨y, hy, hy'⟩ := h.origin g hg hacc happid
      exact ⟨y, List.mem_append_left _ hy, hy'⟩
    · exact ⟨x, by simp, rfl, hacc, hreply⟩
  · intro y hy game hanswered
    rcases List.mem_append.mp hy with hy | hy
    · obtain ⟨row, hfiled⟩ := h.filed y hy game hanswered
      exact ⟨row, hfiled.mono hold⟩
    · obtain rfl := List.mem_singleton.mp hy
      refine ⟨⟨y.call.id, y.call.account, y.call.title, y.call.steamAppid, none⟩, ?_,
        hanswered.1, ?_, ?_, fun _ _ => rfl⟩
      · rw [hgames]
        simp
      · exact Except.ok.inj (hanswered.2.symm.trans hreply)
      · simp [hholder]

/-- A call finds the game of its identity, or registers one. -/
theorem Registry.step (h : Registry account trace db) (step : EnsureStep db x db') :
    Registry account (trace ++ [x]) db' := by
  obtain ⟨rfl, heq⟩ := step
  have keys : db'.GameKeys := by
    have hkeys : (x.before.ensure x.call).1.GameKeys := h.keys.ensureGame
    rwa [heq] at hkeys
  rcases x.before.ensureGame_cases x.call.account x.call.title x.call.steamAppid x.call.id with
    ⟨row, hfound, hrun⟩ | ⟨hnone, ⟨row, htitle, hrun⟩ | ⟨htitle, ⟨e, hrun⟩ | ⟨-, hrun⟩⟩⟩
  · obtain ⟨rfl, hreply⟩ := Prod.mk.inj (hrun.symm.trans heq)
    obtain ⟨hmem, hacc, happid⟩ := Db.bind_findByAppid_some hfound
    refine h.answer fun game hanswered => ⟨row, hmem, hacc.trans hanswered.1, ?_, ?_, ?_⟩
    · exact Except.ok.inj (hanswered.2.symm.trans hreply.symm)
    · simp [Ensured.holder_of_found hfound]
    · exact fun _ _ => happid
  · obtain ⟨rfl, hreply⟩ := Prod.mk.inj (hrun.symm.trans heq)
    obtain ⟨hmem, hacc, -⟩ := Db.findByTitle_some htitle
    refine h.answer fun game hanswered => ⟨row, hmem, hacc.trans hanswered.1, ?_, ?_, ?_⟩
    · exact Except.ok.inj (hanswered.2.symm.trans hreply.symm)
    · intro holder hholder
      by_cases happid : x.call.steamAppid = none
      · simp [Ensured.holder, happid] at hholder
      · rw [Ensured.holder_eq happid hnone, htitle] at hholder
        exact ⟨Option.some.inj hholder, Db.bind_findByAppid_none happid hnone row hmem hacc⟩
    · intro happid hholder
      rw [Ensured.holder_eq happid hnone, htitle] at hholder
      cases hholder
  · obtain ⟨rfl, hreply⟩ := Prod.mk.inj (hrun.symm.trans heq)
    refine h.answer fun game hanswered => ?_
    cases hreply.trans hanswered.2
  · obtain ⟨hdb, hreply⟩ := Prod.mk.inj (hrun.symm.trans heq)
    exact h.insert hnone htitle (by rw [← hdb]) hreply.symm keys

theorem Registry.run (keys : db₀.GameKeys) (new : ∀ g ∈ db₀.games, g.accountId ≠ account)
    (run : Run EnsureStep db₀ trace db) : Registry account trace db := by
  refine run.invariant_trace (I := Registry account) (fun _ _ _ _ h step => h.step step) ?_
  refine ⟨keys, ?_, ?_, by simp⟩
  · exact fun g hg _ _ hacc => absurd hacc (new g hg)
  · exact fun g hg hacc => absurd hacc (new g hg)

end Steps

/-! ### Appids as identities -/

section Identity

variable {db db₀ : Db} {x y : Ensured} {trace : List Ensured} {account : AccountId}
  {gx gy : EnsuredGame} {rx ry : GameRow}

/-- Two calls are answered with one game exactly when they are filed under one row. -/
theorem Registry.id_eq_iff (h : Registry account trace db)
    (hx : x.Filed account db.games gx rx) (hy : y.Filed account db.games gy ry) :
    gx.id = gy.id ↔ rx = ry := by
  rw [hx.game, hy.game]
  constructor
  · exact h.keys.eq_of_id hx.mem hy.mem
  · rintro rfl
    rfl

/-- A call with an appid that was answered with a game without one ran into it. -/
theorem Ensured.Filed.holder_eq_some (hx : x.Filed account db.games gx rx)
    (happid : x.call.steamAppid ≠ none) (hnone : rx.steamAppid = none) :
    x.holder = some rx := by
  cases hholder : x.holder with
  | none => exact absurd ((hx.own happid hholder).symm.trans hnone) happid
  | some row => rw [(hx.held row hholder).1]

/-- A call that ran into another game, against any other call. -/
theorem HoldersAgree.id_eq_iff (agree : HoldersAgree account trace)
    (h : Registry account trace db) (hx : x ∈ trace) (hy : y ∈ trace)
    (ax : x.Answered account gx) (ay : y.Answered account gy) (happid : y.call.steamAppid ≠ none)
    {row : GameRow} (hholder : x.holder = some row) :
    gx.id = gy.id ↔ x.call.steamAppid = y.call.steamAppid := by
  obtain ⟨rx, fx⟩ := h.filed x hx gx ax
  obtain ⟨ry, fy⟩ := h.filed y hy gy ay
  obtain ⟨rfl, -⟩ := fx.held row hholder
  obtain ⟨hnone, hagree⟩ := agree x hx gx ax rx hholder
  rw [h.id_eq_iff fx fy, eq_comm (a := x.call.steamAppid), hagree y hy gy ay happid]
  constructor
  · rintro rfl
    exact fy.holder_eq_some happid hnone
  · intro hsame
    exact (fy.held rx hsame).1.symm

/-- **Steam games are identified by appid** exactly when titles do not get in the way: over
every sequence of `ensure_game` calls from a new account on, any two calls with appids
return the same game if and only if the appids are the same, just in case every title that
another game already held leads exactly the calls of one appid to a game without appid. -/
theorem appid_identity_iff (keys : db₀.GameKeys)
    (new : ∀ g ∈ db₀.games, g.accountId ≠ account) (run : Run EnsureStep db₀ trace db) :
    AppidIdentity account trace ↔ HoldersAgree account trace := by
  have h := Registry.run keys new run
  constructor
  · intro identity x hx gx ax row hholder
    obtain ⟨rx, fx⟩ := h.filed x hx gx ax
    obtain ⟨rfl, hother⟩ := fx.held row hholder
    obtain ⟨a, ha⟩ : ∃ a, x.call.steamAppid = some a := by
      refine Option.ne_none_iff_exists'.mp fun hnone => ?_
      simp [Ensured.holder, hnone] at hholder
    have hnone : rx.steamAppid = none := by
      by_contra happid
      obtain ⟨y, hy, hyappid, ay⟩ := h.origin rx fx.mem fx.account happid
      obtain ⟨b, hb⟩ := Option.ne_none_iff_exists'.mp happid
      have hab := (identity x hx y hy a b gx _ ha (hyappid.trans hb) ax ay).mp (by rw [fx.game])
      exact hother (by rw [hb, ha, hab])
    refine ⟨hnone, fun y hy gy ay happid => ?_⟩
    obtain ⟨ry, fy⟩ := h.filed y hy gy ay
    obtain ⟨b, hb⟩ := Option.ne_none_iff_exists'.mp happid
    have hident := (identity x hx y hy a b gx gy ha hb ax ay).symm.trans (h.id_eq_iff fx fy)
    rw [ha, hb, Option.some_inj, eq_comm, hident]
    constructor
    · rintro rfl
      exact fy.holder_eq_some happid hnone
    · intro hsame
      exact (fy.held rx hsame).1.symm
  · intro agree x hx y hy a b gx gy ha hb ax ay
    obtain ⟨rx, fx⟩ := h.filed x hx gx ax
    obtain ⟨ry, fy⟩ := h.filed y hy gy ay
    have hxappid : x.call.steamAppid ≠ none := by simp [ha]
    have hyappid : y.call.steamAppid ≠ none := by simp [hb]
    cases hxh : x.holder with
    | some row => rw [agree.id_eq_iff h hx hy ax ay hyappid hxh, ha, hb, Option.some_inj]
    | none =>
        cases hyh : y.holder with
        | some row =>
            rw [eq_comm, agree.id_eq_iff h hy hx ay ax hxappid hyh, ha, hb, Option.some_inj,
              eq_comm]
        | none =>
            have hrx := (fx.own hxappid hxh).trans ha
            have hry := (fy.own hyappid hyh).trans hb
            rw [h.id_eq_iff fx fy]
            constructor
            · rintro rfl
              exact Option.some.inj (hrx.symm.trans hry)
            · rintro rfl
              exact h.appids rx fx.mem ry fy.mem fx.account fy.account (by simp [hrx])
                (hrx.trans hry.symm)

end Identity

section Example

/-- Some calls, one after the other. -/
def Db.ensureAll : Db → List GameCall → List Ensured
  | _, [] => []
  | db, c :: cs => ⟨db, c, (db.ensure c).2⟩ :: (db.ensure c).1.ensureAll cs

theorem run_ensureAll (calls : List GameCall) (db : Db) :
    ∃ db', Run EnsureStep db (db.ensureAll calls) db' := by
  induction calls generalizing db with
  | nil => exact ⟨db, Run.nil⟩
  | cons c cs ih =>
      obtain ⟨db', run⟩ := ih (db.ensure c).1
      exact ⟨db', (Run.single (l := ⟨db, c, (db.ensure c).2⟩) ⟨rfl, rfl⟩).trans run⟩

/-- An account without games, so that every title is new. -/
def newAccountDb : Db where
  accounts := [1]
  devices := []
  blobs := []
  games := []
  versions := []
  config := []
  resolvedConflicts := []

theorem newAccountDb_keys : newAccountDb.GameKeys :=
  ⟨by decide, by decide⟩

/-- Titles that vary for one appid, and titles of their own for the others. -/
def steamLibraryCalls : List GameCall :=
  [⟨1, "Half-Life 2", some 220, 10⟩, ⟨1, "Half-Life 2 (Steam)", some 220, 11⟩,
   ⟨1, "Portal", some 400, 12⟩, ⟨1, "My Mod", none, 13⟩]

theorem steam_library_identified : AppidIdentity 1 (newAccountDb.ensureAll steamLibraryCalls) := by
  obtain ⟨db, run⟩ := run_ensureAll steamLibraryCalls newAccountDb
  refine (appid_identity_iff newAccountDb_keys (by decide) run).mpr ?_
  have hnone : ∀ x ∈ newAccountDb.ensureAll steamLibraryCalls, x.holder = none := by decide
  intro x hx _ _ row hholder
  rw [hnone x hx] at hholder
  cases hholder

/-- A game added by hand holds the title under which the appids 220 and 400 come first. -/
def sharedTitleCalls : List GameCall :=
  [⟨1, "Half-Life 2", none, 10⟩, ⟨1, "Half-Life 2", some 220, 11⟩,
   ⟨1, "Half-Life 2", some 400, 12⟩, ⟨1, "Half-Life 2 (Steam)", some 220, 13⟩]

/-- A title that two games share leads both appids to one game. -/
theorem shared_title_breaks_identity :
    ¬ ∀ (account : AccountId) (db₀ db : Db) (trace : List Ensured), db₀.GameKeys →
      (∀ g ∈ db₀.games, g.accountId ≠ account) → Run EnsureStep db₀ trace db →
      AppidIdentity account trace := by
  intro hevery
  obtain ⟨db, run⟩ := run_ensureAll sharedTitleCalls newAccountDb
  have identity := hevery 1 newAccountDb db _ newAccountDb_keys (by decide) run
  obtain ⟨x, hx, y, hy, ha, hb, ax, ay⟩ : ∃ x ∈ newAccountDb.ensureAll sharedTitleCalls,
      ∃ y ∈ newAccountDb.ensureAll sharedTitleCalls,
        x.call.steamAppid = some 220 ∧ y.call.steamAppid = some 400 ∧
        x.Answered 1 ⟨10, "Half-Life 2", none, none⟩ ∧
        y.Answered 1 ⟨10, "Half-Life 2", none, none⟩ := by
    refine ⟨_, List.mem_cons_of_mem _ List.mem_cons_self, _,
      List.mem_cons_of_mem _ (List.mem_cons_of_mem _ List.mem_cons_self), rfl, rfl, ?_, ?_⟩
    · exact ⟨rfl, by rfl⟩
    · exact ⟨rfl, by rfl⟩
  have heq := (identity x hx y hy 220 400 _ _ ha hb ax ay).mp rfl
  omega

end Example

end Savr
