import Savr.Server.Db

/-!
# What the transactions do, and the invariant they keep

Each transaction gets one lemma that says everything it can do
(`createVersionTx_eq_ok_iff`, `resolveConflict_cases`); the invariant `Db.WF` and
every later result about the database are derived from these, never from the
definitions.
-/

namespace Savr

namespace Db

variable {db : Db} {account : AccountId} {gameId : GameId} {req : CreateVersion}
  {id winner : VersionId} {keepBoth : Bool} {now : Timestamp}

/-! ### The invariant -/

/-- Referential integrity of the database: what its keys and checks keep, and beyond that the
order of parents and the counts of the blobs. -/
structure WF (db : Db) : Prop where
  accountIds : db.accounts.Nodup
  /-- Every game belongs to an account. -/
  accountOwned : ∀ g ∈ db.games, g.accountId ∈ db.accounts
  gameIds : (db.games.map GameRow.id).Nodup
  versionIds : (db.versions.map fun v => v.id).Nodup
  seqUnique : ∀ v ∈ db.versions, ∀ w ∈ db.versions,
    v.gameId = w.gameId → v.seq = w.seq → v = w
  /-- A head is a version of its own game and account. -/
  headOwned : ∀ g ∈ db.games, ∀ h, g.head = some h →
    ∃ v ∈ db.versions, v.id = h ∧ v.gameId = g.id ∧ v.accountId = g.accountId
  /-- Every version belongs to a game of its account. -/
  gameOwned : ∀ v ∈ db.versions, ∃ g ∈ db.games, g.id = v.gameId ∧ g.accountId = v.accountId
  /-- A parent exists, and is older than its child within one game. -/
  parentOlder : ∀ v ∈ db.versions, ∀ p, v.parent = some p →
    ∃ u ∈ db.versions, u.id = p ∧ (u.gameId = v.gameId → u.seq < v.seq)
  blobHashes : (db.blobs.map BlobRow.hash).Nodup
  blobStored : ∀ v ∈ db.versions, ∃ b ∈ db.blobs, b.hash = v.blobHash
  /-- The count of a blob is the number of versions that reference it. -/
  refcounts : ∀ b ∈ db.blobs,
    b.refcount = (db.versions.countP fun v => v.blobHash = b.hash : ℕ)

/-- A database before its first upload: games without a head, no versions, and
blobs nobody references. -/
structure Fresh (db : Db) : Prop where
  accountIds : db.accounts.Nodup
  accountOwned : ∀ g ∈ db.games, g.accountId ∈ db.accounts
  gameIds : (db.games.map GameRow.id).Nodup
  noHead : ∀ g ∈ db.games, g.head = none
  noVersions : db.versions = []
  blobHashes : (db.blobs.map BlobRow.hash).Nodup
  noRefs : ∀ b ∈ db.blobs, b.refcount = 0

/-- An empty database is well formed. -/
theorem Fresh.wf (h : db.Fresh) : db.WF where
  accountIds := h.accountIds
  accountOwned := h.accountOwned
  gameIds := h.gameIds
  versionIds := by simp [h.noVersions]
  seqUnique := by simp [h.noVersions]
  headOwned g hg x hx := by rw [h.noHead g hg] at hx; cases hx
  gameOwned := by simp [h.noVersions]
  parentOlder := by simp [h.noVersions]
  blobHashes := h.blobHashes
  blobStored := by simp [h.noVersions]
  refcounts b hb := by simp [h.noVersions, h.noRefs b hb]

/-! ### Queries -/

theorem findGame_eq_some (h : db.findGame account gameId = some g) :
    g ∈ db.games ∧ g.id = gameId ∧ g.accountId = account := by
  have hprop := List.find?_some h
  exact ⟨List.mem_of_find?_eq_some h, by simpa using hprop⟩

/-- With unique ids, a game is found exactly when it is there. -/
theorem findGame_of_mem (hnd : (db.games.map GameRow.id).Nodup) {g : GameRow}
    (hg : g ∈ db.games) : db.findGame g.accountId g.id = some g := by
  cases hfind : db.findGame g.accountId g.id with
  | none =>
      have := List.find?_eq_none.mp hfind g hg
      simp at this
  | some g' =>
      obtain ⟨hg', hid, -⟩ := findGame_eq_some hfind
      rw [List.inj_on_of_nodup_map hnd hg' hg hid]

theorem mem_gameRows {v : VersionRow} :
    v ∈ db.gameRows account gameId ↔
      v ∈ db.versions ∧ v.gameId = gameId ∧ v.accountId = account := by
  simp [gameRows]

/-- `list_versions` returns exactly the rows of the game. -/
theorem mem_listVersions {v : Version} :
    v ∈ db.listVersions account gameId ↔
      ∃ row ∈ db.versions, row.gameId = gameId ∧ row.accountId = account ∧
        row.toVersion = v := by
  simp only [listVersions, List.mem_map, List.mem_reverse, RankedList.mem_sortBy, mem_gameRows]
  constructor
  · rintro ⟨row, ⟨hrow, hg, ha⟩, rfl⟩
    exact ⟨row, hrow, hg, ha, rfl⟩
  · rintro ⟨row, hrow, hg, ha, rfl⟩
    exact ⟨row, ⟨hrow, hg, ha⟩, rfl⟩

/-- The keys of the table `versions`: `PRIMARY KEY` and `UNIQUE(game_id, seq)`. -/
structure VersionKeys (db : Db) : Prop where
  ids : (db.versions.map fun v => v.id).Nodup
  seqs : ∀ v ∈ db.versions, ∀ w ∈ db.versions, v.gameId = w.gameId → v.seq = w.seq → v = w

theorem WF.versionKeys (wf : db.WF) : db.VersionKeys :=
  ⟨wf.versionIds, wf.seqUnique⟩

/-- Distinct rows of one game have distinct `seq`s. -/
theorem VersionKeys.seq_pairwise_ne (keys : db.VersionKeys) (account : AccountId)
    (gameId : GameId) : (db.gameRows account gameId).Pairwise fun v w => v.seq ≠ w.seq := by
  have hnd : (db.gameRows account gameId).Nodup := (List.Nodup.of_map _ keys.ids).filter _
  refine hnd.imp_of_mem fun {v w} hv hw hvw heq => hvw ?_
  obtain ⟨hv, hvg, -⟩ := mem_gameRows.mp hv
  obtain ⟨hw, hwg, -⟩ := mem_gameRows.mp hw
  exact keys.seqs v hv w hw (hvg.trans hwg.symm) heq

/-- The list is ordered by `seq`, newest first, and no `seq` occurs twice. -/
theorem WF.listVersions_pairwise (wf : db.WF) (account : AccountId) (gameId : GameId) :
    (db.listVersions account gameId).Pairwise fun v w => w.seq < v.seq := by
  rw [listVersions, List.pairwise_map, List.pairwise_reverse]
  exact RankedList.sortBy_increasing (wf.versionKeys.seq_pairwise_ne account gameId)

theorem WF.distinctIds (wf : db.WF) (account : AccountId) (gameId : GameId) :
    DistinctIds (db.listVersions account gameId) := by
  have hperm : (RankedList.sortBy (fun v : VersionRow => v.seq)
      (db.gameRows account gameId)).reverse.Perm (db.gameRows account gameId) :=
    (List.reverse_perm _).trans (RankedList.sortBy_perm _)
  rw [DistinctIds, listVersions, List.map_map, (hperm.map _).nodup_iff]
  exact wf.versionIds.sublist (List.filter_sublist.map _)

theorem Fresh.listVersions_nil (fresh : db.Fresh) (account : AccountId) (gameId : GameId) :
    db.listVersions account gameId = [] := by
  rw [List.eq_nil_iff_forall_not_mem]
  intro v hv
  obtain ⟨row, hrow, -⟩ := mem_listVersions.mp hv
  rw [fresh.noVersions] at hrow
  cases hrow

theorem Fresh.head_none (fresh : db.Fresh) (account : AccountId) (gameId : GameId) :
    db.head account gameId = none := by
  rw [head]
  cases hg : db.findGame account gameId with
  | none => rfl
  | some game => exact fresh.noHead game (findGame_eq_some hg).1

/-- The next number is above `n` exactly when a version of the game has reached `n`. -/
theorem lt_nextSeq_iff {n : ℕ} :
    n < db.nextSeq gameId ↔ n = 0 ∨ ∃ v ∈ db.versions, v.gameId = gameId ∧ n ≤ v.seq := by
  have hmax : ∀ l : List ℕ, n < l.foldr max 0 + 1 ↔ n = 0 ∨ ∃ m ∈ l, n ≤ m := by
    intro l
    induction l with
    | nil => simp
    | cons a l ih =>
        have hrest : n ≤ l.foldr max 0 ↔ n = 0 ∨ ∃ m ∈ l, n ≤ m := Nat.lt_succ_iff.symm.trans ih
        rw [List.foldr_cons, Nat.lt_succ_iff, le_max_iff, hrest, List.exists_mem_cons_iff]
        tauto
  rw [nextSeq, hmax]
  simp [and_assoc]

theorem seq_lt_nextSeq {v : VersionRow} (hv : v ∈ db.versions) :
    v.seq < db.nextSeq v.gameId :=
  lt_nextSeq_iff.mpr (Or.inr ⟨v, hv, rfl, le_rfl⟩)

theorem nextSeq_mono {db' : Db} (hsub : ∀ v ∈ db.versions, v ∈ db'.versions) {n : ℕ}
    (h : n < db.nextSeq gameId) : n < db'.nextSeq gameId := by
  rcases lt_nextSeq_iff.mp h with rfl | ⟨v, hv, hg, hle⟩
  · exact Nat.succ_pos _
  · exact lt_nextSeq_iff.mpr (Or.inr ⟨v, hsub v hv, hg, hle⟩)

/-- A stored version is loaded by its id. -/
theorem loadVersion_of_mem (hnd : (db.versions.map fun v => v.id).Nodup) {v : VersionRow}
    (hv : v ∈ db.versions) : db.loadVersion v.id = .ok v.toVersion := by
  unfold loadVersion
  cases hfind : db.versions.find? fun w => w.id = v.id with
  | none =>
      have := List.find?_eq_none.mp hfind v hv
      simp at this
  | some w =>
      have hw := List.mem_of_find?_eq_some hfind
      have hid : w.id = v.id := by simpa using List.find?_some hfind
      rw [List.inj_on_of_nodup_map hnd hw hv hid]

/-! ### Statements -/

theorem uniqueOk_iff {row : VersionRow} :
    db.uniqueOk row = true ↔
      ∀ v ∈ db.versions, v.id ≠ row.id ∧ ¬ (v.gameId = row.gameId ∧ v.seq = row.seq) := by
  simp only [uniqueOk, List.all_eq_true, decide_eq_true_eq]

/-- What the foreign keys ask of a row. A row may be its own parent. -/
theorem foreignKeysOk_iff {row : VersionRow} :
    db.foreignKeysOk row = true ↔
      (∃ g ∈ db.games, g.id = row.gameId) ∧ (∃ d ∈ db.devices, d.id = row.deviceId) ∧
        (∀ p, row.parent = some p → p = row.id ∨ ∃ v ∈ db.versions, v.id = p) ∧
        ∃ b ∈ db.blobs, b.hash = row.blobHash := by
  cases hp : row.parent with
  | none => simp [foreignKeysOk, hp, and_assoc]
  | some p => simp [foreignKeysOk, hp, and_assoc]

/-- With unique game ids, the head update affects one row exactly when the game
is there with the expected head. -/
theorem casHead_affected (hnd : (db.games.map GameRow.id).Nodup) {g : GameRow}
    (hg : db.findGame account gameId = some g) (expected : Option VersionId) :
    db.games.countP (casMatches account gameId expected) =
      if g.head = expected then 1 else 0 := by
  obtain ⟨hmem, rfl, rfl⟩ := findGame_eq_some hg
  have hcount : ∀ gs : List GameRow, (gs.map GameRow.id).Nodup → g ∈ gs →
      gs.countP (casMatches g.accountId g.id expected) =
        if g.head = expected then 1 else 0 := by
    intro gs hnd hmem
    induction gs with
    | nil => cases hmem
    | cons x gs ih =>
        rw [List.map_cons, List.nodup_cons] at hnd
        rw [List.countP_cons]
        rcases List.mem_cons.mp hmem with rfl | hmem
        · have hrest : gs.countP (casMatches g.accountId g.id expected) = 0 := by
            rw [List.countP_eq_zero]
            intro y hy hmatch
            have hid : y.id = g.id := by simp [casMatches] at hmatch; exact hmatch.1
            exact hnd.1 (hid ▸ List.mem_map.mpr ⟨y, hy, rfl⟩)
          simp [hrest, casMatches]
        · have hx : casMatches g.accountId g.id expected x = false := by
            have hne : x.id ≠ g.id := fun h =>
              hnd.1 (h ▸ List.mem_map.mpr ⟨g, hmem, rfl⟩)
            simp [casMatches, hne]
          simp [hx, ih hnd.2 hmem]
  exact hcount db.games hnd hmem

@[simp] theorem addRef_hash (hash : Blake3Hash) (delta : ℤ) (b : BlobRow) :
    (addRef hash delta b).hash = b.hash := by
  unfold addRef
  split <;> rfl

theorem map_hash_addRef (hash : Blake3Hash) (delta : ℤ) (blobs : List BlobRow) :
    (blobs.map (addRef hash delta)).map BlobRow.hash = blobs.map BlobRow.hash := by
  rw [List.map_map]
  exact List.map_congr_left fun b _ => addRef_hash hash delta b

/-! ### The head update -/

section CasGames

variable {games : List GameRow} {expected : Option VersionId} {new : VersionId}

/-- A row after the update is a row before it, with its head moved only if it was
the row the update asked for. -/
theorem mem_casGames {g' : GameRow} (h : g' ∈ casGames account gameId expected new games) :
    ∃ g ∈ games, g'.id = g.id ∧ g'.accountId = g.accountId ∧
      (g'.head = g.head ∨
        (g.id = gameId ∧ g.accountId = account ∧ g.head = expected ∧ g'.head = some new)) := by
  obtain ⟨g, hg, rfl⟩ := List.mem_map.mp h
  refine ⟨g, hg, ?_⟩
  by_cases hm : casMatches account gameId expected g = true
  · have hm' : g.id = gameId ∧ g.accountId = account ∧ g.head = expected := by
      simpa [casMatches] using hm
    simp [hm, hm']
  · simp [hm]

theorem exists_mem_casGames {g : GameRow} (hg : g ∈ games) :
    ∃ g' ∈ casGames account gameId expected new games,
      g'.id = g.id ∧ g'.accountId = g.accountId := by
  refine ⟨_, List.mem_map.mpr ⟨g, hg, rfl⟩, ?_⟩
  split <;> simp

theorem WF.accountOwned_casGames (wf : db.WF) :
    ∀ g ∈ casGames account gameId expected new db.games, g.accountId ∈ db.accounts := by
  intro g hg
  obtain ⟨g₀, hg₀, -, hacc, -⟩ := mem_casGames hg
  exact hacc ▸ wf.accountOwned g₀ hg₀

theorem casGames_ids :
    (casGames account gameId expected new games).map GameRow.id = games.map GameRow.id := by
  rw [casGames, List.map_map]
  refine List.map_congr_left fun g _ => ?_
  simp only [Function.comp_apply]
  split <;> rfl

/-- The updated game afterwards. -/
theorem findGame_casGames {game : GameRow} (hg : db.findGame account gameId = some game)
    (expected : Option VersionId) (new : VersionId) :
    { db with games := casGames account gameId expected new db.games }.findGame
        account gameId =
      some (if game.head = expected then { game with head := some new } else game) := by
  have hfind : ∀ gs : List GameRow,
      gs.find? (fun g => decide (g.id = gameId ∧ g.accountId = account)) = some game →
      (casGames account gameId expected new gs).find?
          (fun g => decide (g.id = gameId ∧ g.accountId = account)) =
        some (if game.head = expected then { game with head := some new } else game) := by
    intro gs
    induction gs with
    | nil => intro h; cases h
    | cons x gs ih =>
        intro h
        unfold casGames at ih ⊢
        by_cases hx : x.id = gameId ∧ x.accountId = account
        · rw [List.find?_cons_of_pos (by simpa using hx)] at h
          obtain rfl := Option.some.inj h
          rw [List.map_cons, List.find?_cons_of_pos]
          · by_cases hp : x.head = expected <;> simp [casMatches, hx, hp]
          · by_cases hp : x.head = expected <;> simp [casMatches, hx, hp]
        · rw [List.find?_cons_of_neg (by simpa using hx)] at h
          have hcas : casMatches account gameId expected x = false := by
            simp only [casMatches, decide_eq_false_iff_not]
            exact fun hm => hx ⟨hm.1, hm.2.1⟩
          rw [List.map_cons, List.find?_cons_of_neg]
          · exact ih h
          · simpa [hcas] using hx
  exact hfind db.games hg

/-- Every other game is untouched. -/
theorem findGame_casGames_of_ne (db : Db) {account' : AccountId} {gameId' : GameId}
    (expected : Option VersionId) (new : VersionId)
    (hne : (account', gameId') ≠ (account, gameId)) :
    { db with games := casGames account gameId expected new db.games }.findGame
        account' gameId' = db.findGame account' gameId' := by
  have hfind : ∀ gs : List GameRow,
      (casGames account gameId expected new gs).find?
          (fun g => decide (g.id = gameId' ∧ g.accountId = account')) =
        gs.find? (fun g => decide (g.id = gameId' ∧ g.accountId = account')) := by
    intro gs
    induction gs with
    | nil => rfl
    | cons x gs ih =>
        unfold casGames at ih ⊢
        by_cases hx : x.id = gameId' ∧ x.accountId = account'
        · have hcas : casMatches account gameId expected x = false := by
            simp only [casMatches, decide_eq_false_iff_not]
            rintro ⟨hid, hacc, -⟩
            exact hne (Prod.ext (hx.2.symm.trans hacc) (hx.1.symm.trans hid))
          rw [List.map_cons, hcas]
          simp [hx]
        · rw [List.map_cons, List.find?_cons_of_neg, ih, List.find?_cons_of_neg]
          · simpa using hx
          · by_cases hm : casMatches account gameId expected x = true
            · simpa [hm] using hx
            · simpa [hm] using hx
  exact hfind db.games

end CasGames

/-! ### `create_version` -/

/-- The state a committed `create_version` leaves. -/
def created (db : Db) (account : AccountId) (gameId : GameId) (req : CreateVersion)
    (id : VersionId) (now : Timestamp) : Db :=
  { db with
    versions := db.versions ++ [db.newRow account gameId req id now]
    blobs := db.blobs.map (addRef req.blobHash 1)
    games := casGames account gameId req.parent id db.games }

/-- **Everything `create_version` can do.**  It commits exactly when the
constraints admit the row and the game is the account's, and then the state and
the two reported values are these. -/
theorem createVersionTx_eq_ok_iff {r : Db × Bool × Option VersionId} :
    db.createVersionTx account gameId req id now = .ok r ↔
      db.uniqueOk (db.newRow account gameId req id now) = true ∧
      db.foreignKeysOk (db.newRow account gameId req id now) = true ∧
      ∃ game, db.findGame account gameId = some game ∧
        r = (db.created account gameId req id now,
          decide (db.games.countP (casMatches account gameId req.parent) = 1), game.head) := by
  unfold createVersionTx insertVersion
  cases hu : db.uniqueOk (db.newRow account gameId req id now) with
  | false => simp [bind, Except.bind]
  | true =>
      cases hf : db.foreignKeysOk (db.newRow account gameId req id now) with
      | false => simp [bind, Except.bind]
      | true =>
          simp only [if_true, bind, Except.bind, true_and]
          have hgame : (addRefcount { db with
                versions := db.versions ++ [db.newRow account gameId req id now] }
              req.blobHash 1).findGame account gameId = db.findGame account gameId := rfl
          rw [hgame]
          cases db.findGame account gameId with
          | none => simp
          | some game =>
              simp only [casHead, addRefcount, created, Except.ok.injEq, Option.some.injEq,
                exists_eq_left']
              exact eq_comm

/-- A call that fails in its transaction changes nothing. -/
theorem createVersion_eq_of_tx_error {e : ApiError}
    (h : db.createVersionTx account gameId req id now = .error e) :
    db.createVersion account gameId req id now = (db, .error e) := by
  simp [createVersion, h]

/-! ### `create_version` keeps the invariant -/

/-- A committed upload under a fresh id keeps referential integrity. -/
theorem WF.created (wf : db.WF) (hfresh : req.parent ≠ some id)
    (hu : db.uniqueOk (db.newRow account gameId req id now) = true)
    (hf : db.foreignKeysOk (db.newRow account gameId req id now) = true) {game : GameRow}
    (hgame : db.findGame account gameId = some game) :
    (db.created account gameId req id now).WF := by
  have huniq := uniqueOk_iff.mp hu
  obtain ⟨-, -, hparent, hblob⟩ := foreignKeysOk_iff.mp hf
  obtain ⟨hgmem, hgid, hgacc⟩ := findGame_eq_some hgame
  refine ⟨wf.accountIds, wf.accountOwned_casGames, ?_, ?_, ?_, ?_, ?_, ?_, ?_, ?_, ?_⟩
  · rw [Db.created, casGames_ids]
    exact wf.gameIds
  -- ids and numbers: the `UNIQUE` constraints compare the new row with every old one
  · change ((db.versions ++ [_]).map _).Nodup
    rw [List.map_append, List.nodup_append]
    refine ⟨wf.versionIds, by simp, ?_⟩
    intro a ha b hb
    obtain ⟨v, hv, rfl⟩ := List.mem_map.mp ha
    obtain rfl : b = _ := by simpa using hb
    exact (huniq v hv).1
  · intro v hv w hw hgm hseq
    rcases List.mem_append.mp hv with hv | hv <;> rcases List.mem_append.mp hw with hw | hw
    · exact wf.seqUnique v hv w hw hgm hseq
    · obtain rfl := List.mem_singleton.mp hw
      exact absurd ⟨hgm, hseq⟩ (huniq v hv).2
    · obtain rfl := List.mem_singleton.mp hv
      exact absurd ⟨hgm.symm, hseq.symm⟩ (huniq w hw).2
    · rw [List.mem_singleton.mp hv, List.mem_singleton.mp hw]
  -- heads: moved only by the compare-and-set, and then to the new row
  · intro g' hg' h hhead
    obtain ⟨g, hg, hid, hacc, hold | ⟨hgid', hgacc', -, hnew⟩⟩ := mem_casGames hg'
    · obtain ⟨v, hv, hvid, hvg, hva⟩ := wf.headOwned g hg h (hold ▸ hhead)
      exact ⟨v, List.mem_append_left _ hv, hvid, hid ▸ hvg, hacc ▸ hva⟩
    · rw [hnew] at hhead
      obtain rfl := Option.some.inj hhead
      refine ⟨db.newRow account gameId req id now, by simp [Db.created], rfl, ?_, ?_⟩
      · rw [hid, hgid']; rfl
      · rw [hacc, hgacc']; rfl
  · intro v hv
    rcases List.mem_append.mp hv with hv | hv
    · obtain ⟨g, hg, hid, hacc⟩ := wf.gameOwned v hv
      obtain ⟨g', hg', hid', hacc'⟩ := exists_mem_casGames hg
      exact ⟨g', hg', hid'.trans hid, hacc'.trans hacc⟩
    · obtain rfl := List.mem_singleton.mp hv
      obtain ⟨g', hg', hid', hacc'⟩ := exists_mem_casGames hgmem
      exact ⟨g', hg', hid'.trans hgid, hacc'.trans hgacc⟩
  · intro v hv p hp
    rcases List.mem_append.mp hv with hv | hv
    · obtain ⟨u, hu', huid, hlt⟩ := wf.parentOlder v hv p hp
      exact ⟨u, List.mem_append_left _ hu', huid, hlt⟩
    · obtain rfl := List.mem_singleton.mp hv
      -- the foreign key alone would let the row be its own parent
      rcases hparent p hp with rfl | ⟨u, hu', rfl⟩
      · exact absurd hp hfresh
      · refine ⟨u, List.mem_append_left _ hu', rfl, fun hgm => ?_⟩
        have hlt := seq_lt_nextSeq hu'
        rw [hgm] at hlt
        exact hlt
  · change ((db.blobs.map (addRef req.blobHash 1)).map BlobRow.hash).Nodup
    rw [map_hash_addRef]
    exact wf.blobHashes
  · intro v hv
    have hold : ∃ b ∈ db.blobs, b.hash = v.blobHash := by
      rcases List.mem_append.mp hv with hv | hv
      · exact wf.blobStored v hv
      · obtain rfl := List.mem_singleton.mp hv
        exact hblob
    obtain ⟨b, hb, hbh⟩ := hold
    exact ⟨_, List.mem_map.mpr ⟨b, hb, rfl⟩, (addRef_hash _ _ b).trans hbh⟩
  · intro b' hb'
    obtain ⟨b, hb, rfl⟩ := List.mem_map.mp hb'
    have hcount := wf.refcounts b hb
    by_cases hh : b.hash = req.blobHash
    · simp [Db.created, addRef, hh, hcount, List.countP_append, newRow]
    · have hnew : (db.newRow account gameId req id now).blobHash ≠ b.hash := fun h => hh h.symm
      simp [Db.created, addRef, hh, hcount, List.countP_append, hnew]

/-! ### `blob_put` -/

/-- Recording an uploaded object touches no game and no version. -/
theorem recordBlob_frame (hash : Blake3Hash) (bytes : ℕ) :
    (db.recordBlob hash bytes now).games = db.games ∧
      (db.recordBlob hash bytes now).versions = db.versions ∧
      (db.recordBlob hash bytes now).devices = db.devices := by
  unfold recordBlob
  split <;> simp

/-- A blob is recorded next to the others. -/
theorem exists_blob_recordBlob {hash hash' : Blake3Hash} {bytes : ℕ} :
    (∃ b ∈ (db.recordBlob hash bytes now).blobs, b.hash = hash') ↔
      hash = hash' ∨ ∃ b ∈ db.blobs, b.hash = hash' := by
  unfold recordBlob
  by_cases hany : db.blobs.any (fun b => b.hash = hash) = true
  · rw [if_pos hany]
    refine ⟨Or.inr, ?_⟩
    rintro (rfl | h)
    · simpa using hany
    · exact h
  · rw [if_neg hany]
    simp only [List.mem_append, List.mem_singleton, or_and_right, exists_or, exists_eq_left]
    exact or_comm

theorem head_recordBlob (hash : Blake3Hash) (bytes : ℕ) :
    (db.recordBlob hash bytes now).head account gameId = db.head account gameId := by
  rw [Db.head, Db.head, findGame, findGame, (recordBlob_frame hash bytes).1]

/-- A recorded blob starts unreferenced, which is what no version referencing it
means. -/
theorem WF.recordBlob (wf : db.WF) (hash : Blake3Hash) (bytes : ℕ) :
    (db.recordBlob hash bytes now).WF := by
  unfold Db.recordBlob
  by_cases hany : db.blobs.any (fun b => b.hash = hash) = true
  · rw [if_pos hany]
    exact wf
  · rw [if_neg hany]
    have hnone : ∀ b ∈ db.blobs, b.hash ≠ hash := by simpa using hany
    refine ⟨wf.accountIds, wf.accountOwned, wf.gameIds, wf.versionIds, wf.seqUnique,
      wf.headOwned, wf.gameOwned, wf.parentOlder, ?_, ?_, ?_⟩
    · rw [List.map_append, List.nodup_append]
      refine ⟨wf.blobHashes, by simp, ?_⟩
      intro a ha b hb
      obtain ⟨x, hx, rfl⟩ := List.mem_map.mp ha
      obtain rfl : b = hash := by simpa using hb
      exact hnone x hx
    · intro v hv
      obtain ⟨b, hb, hbh⟩ := wf.blobStored v hv
      exact ⟨b, List.mem_append_left _ hb, hbh⟩
    · intro b hb
      rcases List.mem_append.mp hb with hb | hb
      · exact wf.refcounts b hb
      · obtain rfl := List.mem_singleton.mp hb
        have hzero : (db.versions.countP fun v => v.blobHash = hash) = 0 := by
          rw [List.countP_eq_zero]
          intro v hv hvh
          obtain ⟨b, hb, hbh⟩ := wf.blobStored v hv
          exact hnone b hb (hbh.trans (by simpa using hvh))
        simp [hzero]

/-- The row of the current head, as `create_version` reports it on a conflict. -/
def headVersion (db : Db) (account : AccountId) (gameId : GameId) : Option Version :=
  (db.head account gameId).bind fun h =>
    (db.versions.find? fun v => v.id = h).map VersionRow.toVersion

/-- The head of a game is one of its versions. -/
theorem WF.exists_headVersion (wf : db.WF) {h : VersionId}
    (hhead : db.head account gameId = some h) :
    ∃ v ∈ db.gameRows account gameId, v.id = h ∧
      db.headVersion account gameId = some v.toVersion := by
  obtain ⟨game, hgame, hgh⟩ := Option.bind_eq_some_iff.mp hhead
  obtain ⟨hmem, rfl, rfl⟩ := findGame_eq_some hgame
  obtain ⟨v, hv, rfl, hvg, hva⟩ := wf.headOwned game hmem h hgh
  refine ⟨v, mem_gameRows.mpr ⟨hv, hvg, hva⟩, rfl, ?_⟩
  have hload := loadVersion_of_mem wf.versionIds hv
  unfold loadVersion at hload
  rw [headVersion, hhead, Option.bind_some]
  cases hfind : db.versions.find? fun w => w.id = v.id with
  | none => simp [hfind] at hload
  | some w =>
      simp only [hfind, Except.ok.injEq] at hload
      simp [hload]

/-- **Everything a call of `create_version` can do**, with its reply.  Either the
transaction fails and nothing changes, or it commits and the reply says whether
the declared parent was the head. -/
theorem createVersion_cases (wf : db.WF) (account : AccountId) (gameId : GameId)
    (now : Timestamp) (hfresh : req.parent ≠ some id) :
    (∃ e, db.createVersionTx account gameId req id now = .error e ∧
      db.createVersion account gameId req id now = (db, .error e)) ∨
    (∃ game, db.findGame account gameId = some game ∧
      (db.created account gameId req id now).WF ∧
      (∀ v ∈ db.versions, v.id ≠ id) ∧
      (∃ d ∈ db.devices, d.id = req.deviceId) ∧
      db.createVersion account gameId req id now =
        (db.created account gameId req id now,
          .ok (if db.head account gameId = req.parent
            then .fastForward (db.newRow account gameId req id now).toVersion
            else .conflict (db.headVersion account gameId)
              (db.newRow account gameId req id now).toVersion))) := by
  cases htx : db.createVersionTx account gameId req id now with
  | error e => exact Or.inl ⟨e, rfl, createVersion_eq_of_tx_error htx⟩
  | ok r =>
      refine Or.inr ?_
      obtain ⟨hu, hf, game, hgame, rfl⟩ := createVersionTx_eq_ok_iff.mp htx
      have wf' := wf.created hfresh hu hf hgame
      have hid : ∀ v ∈ db.versions, v.id ≠ id := fun v hv => (uniqueOk_iff.mp hu v hv).1
      refine ⟨game, hgame, wf', hid, (foreignKeysOk_iff.mp hf).2.1, ?_⟩
      have hhead : db.head account gameId = game.head := by simp [Db.head, hgame]
      have hload : (db.created account gameId req id now).loadVersion id =
          .ok (db.newRow account gameId req id now).toVersion :=
        loadVersion_of_mem wf'.versionIds
          (v := db.newRow account gameId req id now) (by simp [Db.created])
      simp only [createVersion, htx, casHead_affected wf.gameIds hgame, hhead, hload]
      by_cases hp : game.head = req.parent
      · simp [hp, bind, Except.bind]
      · cases hgh : game.head with
        | none =>
            have hp' : ¬ (none = req.parent) := fun h => hp (hgh.trans h)
            simp [hp', bind, Except.bind, headVersion, hhead, hgh]
        | some h =>
            have hp' : ¬ (some h = req.parent) := fun he => hp (hgh.trans he)
            obtain ⟨v, hv, rfl, hhv⟩ := wf.exists_headVersion (hhead.trans hgh)
            have hloadh : (db.created account gameId req id now).loadVersion v.id =
                .ok v.toVersion :=
              loadVersion_of_mem wf'.versionIds
                (List.mem_append_left _ (mem_gameRows.mp hv).1)
            simp [hp', bind, Except.bind, hloadh, hhv]

/-- The head after a committed upload. -/
theorem head_created {game : GameRow} (hgame : db.findGame account gameId = some game)
    (req : CreateVersion) (id : VersionId) (now : Timestamp) :
    (db.created account gameId req id now).head account gameId =
      if db.head account gameId = req.parent then some id
      else db.head account gameId := by
  have hfind := findGame_casGames hgame req.parent id
  have hhead : db.head account gameId = game.head := by simp [Db.head, hgame]
  rw [hhead, Db.head]
  change (Option.bind (Db.findGame { db with
    games := casGames account gameId req.parent id db.games } account gameId) _) = _
  rw [hfind]
  by_cases hp : game.head = req.parent <;> simp [hp]

/-- A new version of one game moves the head of no other. -/
theorem head_created_of_ne (db : Db) {account' : AccountId} {gameId' : GameId}
    (hne : (account', gameId') ≠ (account, gameId)) (req : CreateVersion) (id : VersionId)
    (now : Timestamp) :
    (db.created account gameId req id now).head account' gameId' =
      db.head account' gameId' := by
  have hfind := findGame_casGames_of_ne db req.parent id hne
  rw [Db.head, Db.head, ← hfind]
  rfl

theorem gameRows_created (db : Db) (account : AccountId) (gameId : GameId)
    (req : CreateVersion) (id : VersionId) (now : Timestamp) :
    (db.created account gameId req id now).gameRows account gameId =
      db.gameRows account gameId ++ [db.newRow account gameId req id now] := by
  simp [gameRows, created, newRow]

/-- A new version of one game adds nothing to another. -/
theorem gameRows_created_of_ne (db : Db) {account' : AccountId} {gameId' : GameId}
    (hne : (account', gameId') ≠ (account, gameId)) (req : CreateVersion) (id : VersionId)
    (now : Timestamp) :
    (db.created account gameId req id now).gameRows account' gameId' =
      db.gameRows account' gameId' := by
  have hother : ¬ (gameId = gameId' ∧ account = account') :=
    fun h => hne (Prod.ext h.2.symm h.1.symm)
  simp [gameRows, created, newRow, hother]

/-- A committed upload is the newest version of its game. -/
theorem listVersions_created (db : Db) (account : AccountId) (gameId : GameId)
    (req : CreateVersion) (id : VersionId) (now : Timestamp) :
    (db.created account gameId req id now).listVersions account gameId =
      (db.newRow account gameId req id now).toVersion :: db.listVersions account gameId := by
  rw [listVersions, gameRows_created, RankedList.sortBy_concat, List.reverse_append,
    List.reverse_singleton, List.singleton_append, List.map_cons]
  · rfl
  · intro v hv
    obtain ⟨hmem, hg, -⟩ := mem_gameRows.mp hv
    exact (hg ▸ seq_lt_nextSeq hmem).le

theorem listVersions_created_of_ne (db : Db) {account' : AccountId} {gameId' : GameId}
    (hne : (account', gameId') ≠ (account, gameId)) (req : CreateVersion) (id : VersionId)
    (now : Timestamp) :
    (db.created account gameId req id now).listVersions account' gameId' =
      db.listVersions account' gameId' := by
  rw [listVersions, gameRows_created_of_ne db hne]
  rfl

/-! ### `resolve_conflict` -/

/-- The state a successful `resolve_conflict` leaves. -/
def resolved (db : Db) (account : AccountId) (gameId : GameId) (winner : VersionId)
    (keepBoth : Bool) (id : Uuid) (now : Timestamp) (cur : Option VersionId) : Db :=
  { db with
    games := casGames account gameId cur winner db.games
    resolvedConflicts := db.resolvedConflicts ++
      loserRows account gameId winner keepBoth id now cur }

/-- **Everything `resolve_conflict` can do.**  It is rejected without effect for
an unknown game or an unknown winner, and succeeds otherwise, whatever the head
is: the compare-and-swap expects the head read in the same transaction. -/
theorem resolveConflict_cases (hnd : (db.games.map GameRow.id).Nodup) (account : AccountId)
    (gameId : GameId) (winner : VersionId) (keepBoth : Bool) (id : Uuid) (now : Timestamp) :
    (db.findGame account gameId = none ∧
      db.resolveConflict account gameId winner keepBoth id now =
        (db, .error (.notFound "game"))) ∨
    (∃ game, db.findGame account gameId = some game ∧
      (∀ v ∈ db.gameRows account gameId, v.id ≠ winner) ∧
      db.resolveConflict account gameId winner keepBoth id now =
        (db, .error (.notFound "winner version"))) ∨
    (∃ game, ∃ row ∈ db.gameRows account gameId,
      db.findGame account gameId = some game ∧ row.id = winner ∧
      db.resolveConflict account gameId winner keepBoth id now =
        (db.resolved account gameId winner keepBoth id now game.head,
          .ok ({ head := some winner, seq := some row.seq }, row.seq))) := by
  unfold resolveConflict
  cases hg : db.findGame account gameId with
  | none => exact Or.inl ⟨rfl, rfl⟩
  | some game =>
      refine Or.inr ?_
      cases hw : (db.gameRows account gameId).find? fun v => v.id = winner with
      | none =>
          refine Or.inl ⟨game, rfl, fun v hv => ?_, rfl⟩
          simpa using List.find?_eq_none.mp hw v hv
      | some row =>
          refine Or.inr ⟨game, row, List.mem_of_find?_eq_some hw, rfl, ?_, ?_⟩
          · simpa using List.find?_some hw
          · simp [casHead, casHead_affected hnd hg, resolved]

/-- The head after a successful resolution. -/
theorem head_resolved {game : GameRow} (hgame : db.findGame account gameId = some game) :
    (db.resolved account gameId winner keepBoth id now game.head).head account gameId =
      some winner := by
  have hfind := findGame_casGames hgame game.head winner
  rw [Db.head]
  change (Option.bind (Db.findGame { db with
    games := casGames account gameId game.head winner db.games } account gameId) _) = _
  rw [hfind]
  simp

theorem head_resolved_of_ne (db : Db) {account' : AccountId} {gameId' : GameId}
    {cur : Option VersionId} (hne : (account', gameId') ≠ (account, gameId)) :
    (db.resolved account gameId winner keepBoth id now cur).head account' gameId' =
      db.head account' gameId' := by
  have hfind := findGame_casGames_of_ne db cur winner hne
  rw [Db.head, Db.head, ← hfind]
  rfl

/-- A successful resolution keeps referential integrity. -/
theorem WF.resolved (wf : db.WF) {row : VersionRow} (hrow : row ∈ db.gameRows account gameId)
    (cur : Option VersionId) :
    (db.resolved account gameId row.id keepBoth id now cur).WF := by
  obtain ⟨hrow, hrg, hra⟩ := mem_gameRows.mp hrow
  refine ⟨wf.accountIds, wf.accountOwned_casGames, ?_, wf.versionIds, wf.seqUnique, ?_, ?_,
    wf.parentOlder, wf.blobHashes, wf.blobStored, wf.refcounts⟩
  · rw [Db.resolved, casGames_ids]
    exact wf.gameIds
  · intro g' hg' h hhead
    obtain ⟨g, hg, hid, hacc, hold | ⟨hgid, hgacc, -, hnew⟩⟩ := mem_casGames hg'
    · obtain ⟨v, hv, hvid, hvg, hva⟩ := wf.headOwned g hg h (hold ▸ hhead)
      exact ⟨v, hv, hvid, hid ▸ hvg, hacc ▸ hva⟩
    · rw [hnew] at hhead
      obtain rfl := Option.some.inj hhead
      exact ⟨row, hrow, rfl, by rw [hid, hgid, hrg], by rw [hacc, hgacc, hra]⟩
  · intro v hv
    obtain ⟨g, hg, hid, hacc⟩ := wf.gameOwned v hv
    obtain ⟨g', hg', hid', hacc'⟩ := exists_mem_casGames hg
    exact ⟨g', hg', hid'.trans hid, hacc'.trans hacc⟩

end Db

end Savr
