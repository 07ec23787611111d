import Savr.Server.Api

/-!
# What the API does to the server

The blob store holds what the versions reference, under the hash of its content
(`Server.Sound`).  Every request of the API keeps this, and takes nothing away:
`Server.Le` orders servers by what they hold.
-/

namespace Savr

namespace Server

/-- Everything `s` holds, `s'` holds. -/
structure Le (s s' : Server) : Prop where
  versions : ∀ v ∈ s.db.versions, v ∈ s'.db.versions
  objects : ∀ hash, s.blobExists hash = true → s'.blobExists hash = true

theorem Le.refl (s : Server) : s.Le s :=
  ⟨fun _ h => h, fun _ h => h⟩

theorem Le.trans {s s' s'' : Server} (h : s.Le s') (h' : s'.Le s'') : s.Le s'' :=
  ⟨fun v hv => h'.versions v (h.versions v hv), fun hash hh => h'.objects hash (h.objects hash hh)⟩

theorem Le.listVersions {s s' : Server} (h : s.Le s') {account : AccountId} {gameId : GameId}
    {v : Version} (hv : v ∈ s.db.listVersions account gameId) :
    v ∈ s'.db.listVersions account gameId := by
  obtain ⟨row, hrow, hg, ha, rfl⟩ := Db.mem_listVersions.mp hv
  exact Db.mem_listVersions.mpr ⟨row, h.versions row hrow, hg, ha, rfl⟩

/-! ### A committed upload -/

/-- The server after a committed upload. -/
def withVersion (s : Server) (account : AccountId) (gameId : GameId) (req : CreateVersion)
    (id : VersionId) (now : Timestamp) : Server :=
  { s with db := s.db.created account gameId req id now }

/-- The version a committed upload stores. -/
def newVersion (s : Server) (account : AccountId) (gameId : GameId) (req : CreateVersion)
    (id : VersionId) (now : Timestamp) : Version :=
  (s.db.newRow account gameId req id now).toVersion

theorem withVersion_le (s : Server) (account : AccountId) (gameId : GameId)
    (req : CreateVersion) (id : VersionId) (now : Timestamp) :
    s.Le (s.withVersion account gameId req id now) :=
  ⟨fun _ hv => List.mem_append_left _ hv, fun _ hex => hex⟩

theorem newVersion_mem (s : Server) (account : AccountId) (gameId : GameId)
    (req : CreateVersion) (id : VersionId) (now : Timestamp) :
    s.newVersion account gameId req id now ∈
      (s.withVersion account gameId req id now).db.listVersions account gameId :=
  Db.mem_listVersions.mpr ⟨s.db.newRow account gameId req id now, by
    simp [withVersion, Db.created], rfl, rfl, rfl⟩

variable [Blake3]

/-- The database is well formed, every object has the hash it is stored under and a
row in `blobs`, and every version's archive is stored. -/
structure Sound (s : Server) : Prop where
  wf : s.db.WF
  addressed : ∀ hash a, s.objects hash = some a → Blake3.ofArchive a = hash
  recorded : ∀ hash a, s.objects hash = some a → ∃ b ∈ s.db.blobs, b.hash = hash
  stored : ∀ v ∈ s.db.versions, ∃ a, s.objects v.blobHash = some a

/-- A server before its first upload. -/
theorem Sound.of_fresh {s : Server} (fresh : s.db.Fresh) (empty : ∀ hash, s.objects hash = none) :
    s.Sound :=
  ⟨fresh.wf, by simp [empty], by simp [empty], by simp [fresh.noVersions]⟩

variable {s : Server} {hash : Blake3Hash} {body : Archive} {now : Timestamp} {auth : Authed}
  {gameId : GameId} {req : CreateVersion} {id : VersionId}

/-! ### `PUT /blobs/{hash}` -/

/-- An upload keeps the server sound. -/
theorem blobPut_sound (sound : s.Sound) : (s.blobPut hash body now).1.Sound := by
  unfold blobPut
  by_cases hh : Blake3.ofArchive body = hash
  · rw [if_pos hh]
    refine ⟨sound.wf.recordBlob _ _, ?_, ?_, ?_⟩
    · intro hash' a ha
      by_cases heq : hash' = hash
      · subst heq
        obtain rfl : body = a := by simpa using ha
        exact hh
      · exact sound.addressed hash' a (by simpa [heq] using ha)
    · intro hash' a ha
      rw [Db.exists_blob_recordBlob]
      by_cases heq : hash' = hash
      · exact Or.inl heq.symm
      · exact Or.inr (sound.recorded hash' a (by simpa [heq] using ha))
    · intro v hv
      change v ∈ (s.db.recordBlob _ _ _).versions at hv
      rw [(Db.recordBlob_frame _ _).2.1] at hv
      obtain ⟨a, ha⟩ := sound.stored v hv
      by_cases heq : v.blobHash = hash
      · exact ⟨body, by simp [heq]⟩
      · exact ⟨a, by simpa [heq] using ha⟩
  · rw [if_neg hh]
    exact sound

/-- It takes nothing away. -/
theorem blobPut_le : s.Le (s.blobPut hash body now).1 := by
  unfold blobPut
  by_cases hh : Blake3.ofArchive body = hash
  · rw [if_pos hh]
    refine ⟨fun v hv => ?_, fun hash' hex => ?_⟩
    · change v ∈ (s.db.recordBlob _ _ _).versions
      rw [(Db.recordBlob_frame _ _).2.1]
      exact hv
    · by_cases heq : hash' = hash
      · simp [blobExists, heq]
      · simpa [blobExists, heq] using hex
  · rw [if_neg hh]
    exact Le.refl s

/-- After a successful upload the object is there. -/
theorem blobPut_ok {existed : Bool} (hok : (s.blobPut hash body now).2 = .ok existed) :
    (s.blobPut hash body now).1.objects hash = some body ∧ Blake3.ofArchive body = hash := by
  unfold blobPut at hok ⊢
  by_cases hh : Blake3.ofArchive body = hash
  · rw [if_pos hh]
    exact ⟨by simp, hh⟩
  · rw [if_neg hh] at hok
    cases hok

/-- Recording a blob leaves the games and versions alone. -/
theorem blobPut_head {account : AccountId} :
    (s.blobPut hash body now).1.db.head account gameId = s.db.head account gameId := by
  unfold blobPut
  split
  · exact Db.head_recordBlob _ _
  · rfl

theorem blobPut_versions : (s.blobPut hash body now).1.db.versions = s.db.versions := by
  unfold blobPut
  split
  · exact (Db.recordBlob_frame _ _).2.1
  · rfl

/-! ### `POST /games/{id}/versions` -/

/-- **Everything `POST /games/{id}/versions` can do.** -/
theorem createVersion_cases (sound : s.Sound) (auth : Authed) (gameId : GameId)
    (now : Timestamp) (hfresh : req.parent ≠ some id) :
    (∃ e, s.createVersion auth gameId req id now = (s, .error e, [])) ∨
    (s.blobExists req.blobHash = true ∧
      (s.withVersion auth.accountId gameId req id now).Sound ∧
      (∃ game, s.db.findGame auth.accountId gameId = some game) ∧
      (∀ v ∈ s.db.versions, v.id ≠ id) ∧
      ∃ advance, advance =
          (if s.db.head auth.accountId gameId = req.parent
            then Advance.fastForward (s.newVersion auth.accountId gameId req id now)
            else Advance.conflict (s.db.headVersion auth.accountId gameId)
              (s.newVersion auth.accountId gameId req id now)) ∧
        s.createVersion auth gameId req id now =
          (s.withVersion auth.accountId gameId req id now, .ok advance,
            createBroadcasts auth.accountId gameId advance)) := by
  unfold createVersion
  by_cases hex : s.blobExists req.blobHash = true
  · rw [if_pos hex]
    rcases Db.createVersion_cases sound.wf auth.accountId gameId now hfresh with
      ⟨e, -, heq⟩ | ⟨game, hgame, wf', hid, -, heq⟩
    · exact Or.inl ⟨e, by rw [heq]⟩
    · refine Or.inr ⟨hex, ⟨wf', sound.addressed, ?_, ?_⟩, ⟨game, hgame⟩, hid, _, rfl, ?_⟩
      · intro hash a ha
        obtain ⟨b, hb, hbhash⟩ := sound.recorded hash a ha
        exact ⟨_, List.mem_map.mpr ⟨b, hb, rfl⟩, (Db.addRef_hash _ _ b).trans hbhash⟩
      · intro v hv
        rcases List.mem_append.mp hv with hv | hv
        · exact sound.stored v hv
        · obtain rfl := List.mem_singleton.mp hv
          exact Option.isSome_iff_exists.mp hex
      · rw [heq]
        rfl
  · rw [if_neg hex]
    exact Or.inl ⟨_, rfl⟩

/-- What `create_version` finds in the database when it commits, the drawn id apart. -/
structure Accepts (s : Server) (account : AccountId) (gameId : GameId) (req : CreateVersion) :
    Prop where
  game : ∃ game, s.db.findGame account gameId = some game
  device : ∃ d ∈ s.db.devices, d.id = req.deviceId
  parent : ∀ p, req.parent = some p → ∃ v ∈ s.db.versions, v.id = p

/-- A version is accepted after it as before. -/
theorem blobPut_accepts_iff {account : AccountId} :
    (s.blobPut hash body now).1.Accepts account gameId req ↔ s.Accepts account gameId req := by
  unfold blobPut
  split
  · obtain ⟨hgames, hversions, hdevices⟩ :
        (s.db.recordBlob hash (Blake3.packedLen body) now).games = s.db.games ∧ _ ∧ _ :=
      Db.recordBlob_frame hash (Blake3.packedLen body)
    constructor
    · rintro ⟨hgame, hdevice, hparent⟩
      rw [Db.findGame, hgames] at hgame
      rw [hdevices] at hdevice
      rw [hversions] at hparent
      exact ⟨hgame, hdevice, hparent⟩
    · rintro ⟨hgame, hdevice, hparent⟩
      refine ⟨?_, ?_, ?_⟩
      · rw [Db.findGame, hgames]
        exact hgame
      · rw [hdevices]
        exact hdevice
      · rw [hversions]
        exact hparent
  · exact Iff.rfl

omit [Blake3] in
/-- **When a version is accepted**, by a server that has a row for its blob: the
reply names the version, and the version is listed. -/
theorem createVersion_stored_iff (wf : s.db.WF) (hfresh : req.parent ≠ some id)
    (hnew : ∀ v ∈ s.db.versions, v.id ≠ id)
    (recorded : s.blobExists req.blobHash = true → ∃ b ∈ s.db.blobs, b.hash = req.blobHash) :
    (∃ advance, (s.createVersion auth gameId req id now).2.1 = .ok advance ∧
        advance.version ∈
          (s.createVersion auth gameId req id now).1.db.listVersions auth.accountId gameId ∧
        advance.version.id = id ∧ advance.version.request = req) ↔
      s.blobExists req.blobHash = true ∧ s.Accepts auth.accountId gameId req := by
  unfold createVersion
  by_cases hex : s.blobExists req.blobHash = true
  · rw [if_pos hex, and_iff_right hex]
    rcases Db.createVersion_cases wf auth.accountId gameId now hfresh with
      ⟨e, htx, heq⟩ | ⟨game, hgame, wf', -, hdevice, heq⟩
    · rw [heq]
      refine iff_of_false (by simp) fun accepts => ?_
      obtain ⟨game, hgame⟩ := accepts.game
      obtain ⟨hgmem, hgid, -⟩ := Db.findGame_eq_some hgame
      have hunique : s.db.uniqueOk (s.db.newRow auth.accountId gameId req id now) = true := by
        rw [Db.uniqueOk_iff]
        rintro v hv
        refine ⟨hnew v hv, ?_⟩
        rintro ⟨hvg, hseq⟩
        have hlt := Db.seq_lt_nextSeq hv
        rw [hvg, hseq] at hlt
        exact absurd hlt (Nat.lt_irrefl _)
      have hkeys : s.db.foreignKeysOk (s.db.newRow auth.accountId gameId req id now) = true :=
        Db.foreignKeysOk_iff.mpr ⟨⟨game, hgmem, hgid⟩, accepts.device,
          fun p hp => Or.inr (accepts.parent p hp), recorded hex⟩
      have hok := Db.createVersionTx_eq_ok_iff.mpr ⟨hunique, hkeys, game, hgame, rfl⟩
      rw [htx] at hok
      cases hok
    · rw [heq]
      refine iff_of_true ?_ ⟨⟨game, hgame⟩, hdevice, fun p hp => ?_⟩
      · refine ⟨_, rfl, ?_⟩
        rw [Advance.version_ite]
        exact ⟨newVersion_mem s auth.accountId gameId req id now, rfl, rfl⟩
      -- the new row's parent was there before: it is not the row itself
      · obtain ⟨u, hu, hup, -⟩ := wf'.parentOlder (s.db.newRow auth.accountId gameId req id now)
          (by simp [Db.created]) p hp
        rcases List.mem_append.mp hu with hu | hu
        · exact ⟨u, hu, hup⟩
        · obtain rfl := List.mem_singleton.mp hu
          exact absurd (hp.trans (congrArg some hup.symm)) hfresh
  · rw [if_neg hex]
    exact iff_of_false (by simp) fun h => hex h.1

/-- **When a version is accepted.** -/
theorem createVersion_ok_iff (sound : s.Sound) (hfresh : req.parent ≠ some id)
    (hnew : ∀ v ∈ s.db.versions, v.id ≠ id) :
    (∃ advance, (s.createVersion auth gameId req id now).2.1 = .ok advance) ↔
      s.blobExists req.blobHash = true ∧ s.Accepts auth.accountId gameId req := by
  have recorded : s.blobExists req.blobHash = true → ∃ b ∈ s.db.blobs, b.hash = req.blobHash := by
    intro hex
    obtain ⟨a, ha⟩ := Option.isSome_iff_exists.mp hex
    exact sound.recorded _ a ha
  rw [← createVersion_stored_iff sound.wf hfresh hnew recorded]
  constructor
  · rintro ⟨advance, hok⟩
    refine ⟨advance, hok, ?_⟩
    rcases createVersion_cases sound auth gameId now hfresh with
      ⟨e, heq⟩ | ⟨-, -, -, -, advance', hadv, heq⟩
    · rw [heq] at hok
      cases hok
    · rw [heq] at hok ⊢
      obtain rfl := Except.ok.inj hok
      rw [hadv, Advance.version_ite]
      exact ⟨newVersion_mem s auth.accountId gameId req id now, rfl, rfl⟩
  · rintro ⟨advance, hok, -⟩
    exact ⟨advance, hok⟩

/-- A version request keeps the server sound, whatever it answers. -/
theorem createVersion_sound (sound : s.Sound) (hfresh : req.parent ≠ some id) :
    (s.createVersion auth gameId req id now).1.Sound := by
  rcases createVersion_cases sound auth gameId now hfresh with
    ⟨e, heq⟩ | ⟨-, sound', -, -, advance, -, heq⟩
  · rw [heq]
    exact sound
  · rw [heq]
    exact sound'

/-- It takes nothing away. -/
theorem createVersion_le (sound : s.Sound) (hfresh : req.parent ≠ some id) :
    s.Le (s.createVersion auth gameId req id now).1 := by
  rcases createVersion_cases sound auth gameId now hfresh with
    ⟨e, heq⟩ | ⟨-, -, -, -, advance, -, heq⟩
  · rw [heq]
    exact Le.refl s
  · rw [heq]
    exact withVersion_le s _ _ _ _ _

/-! ### `POST /games/{id}/resolve` -/

omit [Blake3] in
/-- A resolution changes the database alone, whatever it answers. -/
theorem resolve_server {winner : VersionId} {keepBoth : Bool} :
    (s.resolve auth gameId winner keepBoth id now).1 =
      { s with db := (s.db.resolveConflict auth.accountId gameId winner keepBoth id now).1 } := by
  unfold resolve
  split
  rename_i db reply heq
  simp only [heq]
  split <;> rfl

omit [Blake3] in
/-- **Everything `POST /games/{id}/resolve` can do.** -/
theorem resolve_cases (wf : s.db.WF) (auth : Authed) (gameId : GameId) (winner : VersionId)
    (keepBoth : Bool) (id : Uuid) (now : Timestamp) :
    (∃ e, s.resolve auth gameId winner keepBoth id now = (s, .error e, [])) ∨
    ∃ game, ∃ row ∈ s.db.gameRows auth.accountId gameId,
      s.db.findGame auth.accountId gameId = some game ∧ row.id = winner ∧
      s.resolve auth gameId winner keepBoth id now =
        ({ s with db := s.db.resolved auth.accountId gameId winner keepBoth id now game.head },
          .ok { head := some winner, seq := some row.seq },
          [{ accountId := auth.accountId, except := some auth.deviceId,
             msg := .versionAvailable gameId winner row.seq }]) := by
  rcases Db.resolveConflict_cases wf.gameIds auth.accountId gameId winner keepBoth id now
    with ⟨-, heq⟩ | ⟨game, -, -, heq⟩ | ⟨game, row, hrow, hgame, hid, heq⟩
  · exact Or.inl ⟨.notFound "game", by simp [resolve, heq]⟩
  · exact Or.inl ⟨.notFound "winner version", by simp [resolve, heq]⟩
  · exact Or.inr ⟨game, row, hrow, hgame, hid, by simp [resolve, heq]⟩

/-- A resolution keeps the server sound. -/
theorem resolve_sound (sound : s.Sound) {winner : VersionId} {keepBoth : Bool} :
    (s.resolve auth gameId winner keepBoth id now).1.Sound := by
  rw [resolve_server]
  rcases Db.resolveConflict_cases sound.wf.gameIds auth.accountId gameId winner keepBoth id now
    with ⟨-, heq⟩ | ⟨game, -, -, heq⟩ | ⟨game, row, hrow, -, hid, heq⟩
  · rw [heq]
    exact sound
  · rw [heq]
    exact sound
  · rw [heq, ← hid]
    exact ⟨sound.wf.resolved hrow game.head, sound.addressed, sound.recorded, sound.stored⟩

/-- A resolution leaves the versions as they are. -/
theorem resolve_versions (sound : s.Sound) {winner : VersionId} {keepBoth : Bool} :
    (s.resolve auth gameId winner keepBoth id now).1.db.versions = s.db.versions := by
  rw [resolve_server]
  rcases Db.resolveConflict_cases sound.wf.gameIds auth.accountId gameId winner keepBoth id now
    with ⟨-, heq⟩ | ⟨game, -, -, heq⟩ | ⟨game, row, -, -, -, heq⟩
  · rw [heq]
  · rw [heq]
  · rw [heq]
    rfl

theorem resolve_le (sound : s.Sound) {winner : VersionId} {keepBoth : Bool} :
    s.Le (s.resolve auth gameId winner keepBoth id now).1 := by
  refine ⟨fun v hv => ?_, fun hash hex => ?_⟩
  · rw [resolve_versions sound]
    exact hv
  · rw [resolve_server]
    exact hex

end Server

end Savr
