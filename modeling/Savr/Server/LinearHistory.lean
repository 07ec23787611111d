import Savr.Server.GcTwice

/-!
# Retention on a history without conflicts

If every upload of a game is a fast-forward, its versions form one line: the head is
the newest, and every other version is the parent of the next.  Retention then keeps
"the last N full + M differential per full" and the head.

A run may break the line.  When more than M differentials are behind a full that is
kept, the oldest of them go, and with them the only version whose parent is the full.
From then on it looks like the tip of an unresolved conflict, which no later run may
remove.

## Main results

* `Db.Linear.runGc` — the line survives a run that cuts no group.
* `linear_history_bounded` — without such a cut, every run leaves at most N fulls and
  N * M + 1 differentials.
-/

namespace Savr

open LabelledRun RankedList

namespace Db

/-- The versions of the game form a line that starts with a full and ends with the
head. -/
structure Linear (db : Db) (account : AccountId) (gameId : GameId) : Prop where
  head : ∀ v ∈ db.gameRows account gameId,
    db.head account gameId = some v.id ↔ ∀ w ∈ db.gameRows account gameId, w.seq ≤ v.seq
  /-- Every version but the newest is a parent. -/
  child : ∀ v ∈ db.gameRows account gameId, ∀ w ∈ db.gameRows account gameId, v.seq < w.seq →
    ∃ c ∈ db.gameRows account gameId, c.parent = some v.id
  full : ∀ v ∈ db.gameRows account gameId,
    ∃ f ∈ db.gameRows account gameId, f.kind = .full ∧ f.seq ≤ v.seq

/-- No more differentials than retention keeps are behind each of the fulls it keeps, or
only the head is. -/
def GroupsFit (db : Db) (account : AccountId) (gameId : GameId) : Prop :=
  let vers := db.gcVersions account gameId
  let retention := db.configRetention account
  ∀ f ∈ vers, f.isFull = true →
    vers.countP (fun w => w.isFull ∧ f.seq < w.seq) < retention.full →
    (∀ d ∈ behind GcVersion.seq GcVersion.isFull vers f,
      db.head account gameId = some d.id) ∨
    (behind GcVersion.seq GcVersion.isFull vers f).length ≤ retention.diffPerFull

instance (db : Db) (account : AccountId) (gameId : GameId) :
    Decidable (db.GroupsFit account gameId) :=
  inferInstanceAs (Decidable (∀ f ∈ db.gcVersions account gameId, _ → _ → _ ∨ _))

variable {db db' : Db} {account : AccountId} {gameId : GameId}

/-- Whether a history is linear depends on the game's versions and its head. -/
theorem Linear.congr (h : db.Linear account gameId)
    (hrows : db'.gameRows account gameId = db.gameRows account gameId)
    (hhead : db'.head account gameId = db.head account gameId) : db'.Linear account gameId := by
  refine ⟨?_, ?_, ?_⟩
  · rw [hrows, hhead]
    exact h.head
  · rw [hrows]
    exact h.child
  · rw [hrows]
    exact h.full

/-- On a line only the newest version is protected. -/
theorem Linear.newest_of_protected (h : db.Linear account gameId) {u : GcVersion}
    (hu : u ∈ db.gcVersions account gameId) (hprot : db.Protected account gameId u.id) :
    ∀ w ∈ db.gcVersions account gameId, w.seq ≤ u.seq := by
  obtain ⟨v, hv, rfl⟩ := mem_gcVersions.mp hu
  have hnewest : ∀ w ∈ db.gameRows account gameId, w.seq ≤ v.seq := by
    rcases hprot with hhead | ⟨htip, -⟩
    · exact (h.head v hv).mp hhead
    · intro w hw
      by_contra hlt
      obtain ⟨c, hc, hparent⟩ := h.child v hv w hw (by omega)
      exact htip c hc hparent
  intro x hx
  obtain ⟨w, hw, rfl⟩ := mem_gcVersions.mp hx
  exact hnewest w hw

theorem Linear.anchored (h : db.Linear account gameId) {u : GcVersion}
    (hu : u ∈ db.gcVersions account gameId) :
    ∃ f ∈ db.gcVersions account gameId, f.isFull = true ∧ f.seq ≤ u.seq := by
  obtain ⟨v, hv, rfl⟩ := mem_gcVersions.mp hu
  obtain ⟨f, hf, hfull, hle⟩ := h.full v hv
  exact ⟨gcVersion f, mem_gcVersions.mpr ⟨f, hf, rfl⟩,
    by simp [GcVersion.isFull, gcVersion, GcVersion.ofVersion, hfull], hle⟩

/-- With a version of the line retention keeps everything newer, if the groups fit. -/
theorem Linear.kept_of_le (h : db.Linear account gameId) (keys : db.VersionKeys)
    (pos : 0 < (db.configRetention account).full) (fits : db.GroupsFit account gameId)
    {u w : GcVersion} (hu : u ∈ db.gcVersions account gameId)
    (hw : w ∈ db.gcVersions account gameId) (hle : u.seq ≤ w.seq)
    (hkept : db.Kept account gameId (db.configRetention account) u) :
    db.Kept account gameId (db.configRetention account) w := by
  have fits' : ∀ f ∈ db.gcVersions account gameId, f.isFull = true →
      (db.gcVersions account gameId).countP (fun w => w.isFull ∧ f.seq < w.seq) <
        (db.configRetention account).full →
      (∀ d ∈ behind GcVersion.seq GcVersion.isFull (db.gcVersions account gameId) f,
        db.Protected account gameId d.id) ∨
      (behind GcVersion.seq GcVersion.isFull (db.gcVersions account gameId) f).length ≤
        (db.configRetention account).diffPerFull := by
    intro f hf hfull hnewer
    exact (fits f hf hfull hnewer).imp_left fun hhead d hd => Or.inl (hhead d hd)
  exact Retained.of_le (keys.gcVersions_increasing account gameId)
    (fun _ => h.newest_of_protected) pos (fun _ => h.anchored) fits' hkept hu hw hle

end Db

namespace Server

variable {s : Server} {account : AccountId} {gameId : GameId}

/-- **The line survives a run that cuts no group**: the run removes its oldest part. -/
theorem linear_runGc (wf : s.db.WF) (h : s.db.Linear account gameId)
    (pos : 0 < (s.db.configRetention account).full) (fits : s.db.GroupsFit account gameId) :
    s.runGc.1.db.Linear account gameId := by
  obtain ⟨s', stats, dead, hrun, hpruned, hdead⟩ := runGc_spec wf
  rw [hrun]
  have hrows : ∀ v', v' ∈ s'.db.gameRows account gameId ↔
      ∃ v ∈ s.db.gameRows account gameId, dead v.id = false ∧ Db.clearParent dead v = v' := by
    intro v'
    rw [hpruned.thinned.gameRows]
    simp [and_assoc]
  have halive : ∀ v ∈ s.db.gameRows account gameId, (dead v.id = false ↔
      s.db.Kept account gameId (s.db.configRetention account) (Db.gcVersion v)) := by
    intro v hv
    obtain ⟨hrow, rfl, rfl⟩ := Db.mem_gameRows.mp hv
    rw [← Bool.not_eq_true, hdead v hrow, not_not]
  have hnewer : ∀ v ∈ s.db.gameRows account gameId, ∀ w ∈ s.db.gameRows account gameId,
      v.seq ≤ w.seq → dead v.id = false → dead w.id = false := by
    intro v hv w hw hle hv'
    rw [halive w hw]
    exact h.kept_of_le wf.versionKeys pos fits (Db.mem_gcVersions.mpr ⟨v, hv, rfl⟩)
      (Db.mem_gcVersions.mpr ⟨w, hw, rfl⟩) hle ((halive v hv).mp hv')
  refine ⟨?_, ?_, ?_⟩
  · intro v' hv'
    obtain ⟨v, hv, hleft, rfl⟩ := (hrows _).mp hv'
    rw [hpruned.thinned.head, Db.clearParent_id, h.head v hv, Db.clearParent_seq]
    constructor
    · intro hmax w' hw'
      obtain ⟨w, hw, -, rfl⟩ := (hrows _).mp hw'
      rw [Db.clearParent_seq]
      exact hmax w hw
    · intro hmax w hw
      by_contra hlt
      have hle := hmax _ ((hrows _).mpr ⟨w, hw, hnewer v hv w hw (by omega) hleft, rfl⟩)
      rw [Db.clearParent_seq] at hle
      exact hlt hle
  · intro v' hv' w' hw' hlt
    obtain ⟨v, hv, hleft, rfl⟩ := (hrows _).mp hv'
    obtain ⟨w, hw, -, rfl⟩ := (hrows _).mp hw'
    obtain ⟨c, hc, hparent⟩ := h.child v hv w hw (by simpa using hlt)
    -- the child is newer than its parent, so it is left too
    have hvc : v.seq < c.seq := by
      obtain ⟨hv₀, hvg, -⟩ := Db.mem_gameRows.mp hv
      obtain ⟨hc₀, hcg, -⟩ := Db.mem_gameRows.mp hc
      obtain ⟨u, hu, hid, hseq⟩ := wf.parentOlder c hc₀ _ hparent
      obtain rfl := List.inj_on_of_nodup_map wf.versionIds hu hv₀ hid
      exact hseq (hvg.trans hcg.symm)
    refine ⟨_, (hrows _).mpr ⟨c, hc, hnewer v hv c hc hvc.le hleft, rfl⟩, ?_⟩
    rw [Db.clearParent_id]
    exact Db.clearParent_parent_eq_some.mpr ⟨hparent, hleft⟩
  · intro v' hv'
    obtain ⟨v, hv, hleft, rfl⟩ := (hrows _).mp hv'
    have hu : Db.gcVersion v ∈ s.db.gcVersions account gameId :=
      Db.mem_gcVersions.mpr ⟨v, hv, rfl⟩
    obtain ⟨f, hnear, hfew⟩ := Retained.exists_newest
      (wf.versionKeys.gcVersions_increasing account gameId) (fun _ => h.newest_of_protected) pos
      ((halive v hv).mp hleft) hu (h.anchored hu)
    obtain ⟨row, hrow, rfl⟩ := Db.mem_gcVersions.mp hnear.1
    have hrow' : dead row.id = false :=
      (halive row hrow).mpr (Or.inr (Or.inr (Or.inl ⟨hnear.2.1, hfew⟩)))
    refine ⟨_, (hrows _).mpr ⟨row, hrow, hrow', rfl⟩, ?_, ?_⟩
    · rw [Db.clearParent_kind]
      exact of_decide_eq_true hnear.2.1
    · rw [Db.clearParent_seq, Db.clearParent_seq]
      exact hnear.2.2.1

/-- The versions that a run leaves are those that retention keeps. -/
theorem mem_gcVersions_runGc (wf : s.db.WF) {u : Db.GcVersion} :
    u ∈ s.runGc.1.db.gcVersions account gameId ↔ u ∈ s.db.gcVersions account gameId ∧
      s.db.Kept account gameId (s.db.configRetention account) u := by
  obtain ⟨s', stats, dead, hrun, hpruned, hdead⟩ := runGc_spec wf
  rw [hrun, hpruned.thinned.mem_gcVersions]
  refine and_congr_right fun hu => ?_
  obtain ⟨v, hv, rfl⟩ := Db.mem_gcVersions.mp hu
  obtain ⟨hrow, rfl, rfl⟩ := Db.mem_gameRows.mp hv
  rw [← not_iff_not, ← hdead v hrow]
  exact (Bool.not_eq_false _).to_iff

/-- On a line a run leaves at most N fulls and N * M + 1 differentials. -/
theorem counts_runGc (wf : s.db.WF) (h : s.db.Linear account gameId)
    (pos : 0 < (s.db.configRetention account).full) :
    (s.runGc.1.db.gameRows account gameId).countP (fun v => v.kind = .full) ≤
        (s.db.configRetention account).full ∧
      (s.runGc.1.db.gameRows account gameId).countP (fun v => v.kind = .differential) ≤
        (s.db.configRetention account).full * (s.db.configRetention account).diffPerFull + 1 := by
  have sorted := wf.versionKeys.gcVersions_increasing account gameId
  have sorted' : Increasing Db.GcVersion.seq (s.runGc.1.db.gcVersions account gameId) := by
    obtain ⟨s', stats, dead, hrun, hpruned, -⟩ := runGc_spec wf
    rw [hrun]
    exact hpruned.wf.versionKeys.gcVersions_increasing account gameId
  have nodup : (s.runGc.1.db.gcVersions account gameId).Nodup :=
    sorted'.imp fun hlt heq => absurd (congrArg Db.GcVersion.seq heq) hlt.ne
  -- counting rows is counting what `prune_game` reads of them
  have hcount : ∀ kind, (s.runGc.1.db.gameRows account gameId).countP (fun v => v.kind = kind) =
      (s.runGc.1.db.gcVersions account gameId).countP (fun u => u.kind = kind) := by
    intro kind
    rw [Db.gcVersions, (sortBy_perm _).countP_eq, List.countP_map]
    rfl
  have hkept : ∀ u ∈ s.runGc.1.db.gcVersions account gameId,
      u ∈ s.db.gcVersions account gameId ∧
        s.db.Kept account gameId (s.db.configRetention account) u :=
    fun u => (mem_gcVersions_runGc wf).mp
  rw [hcount, hcount]
  constructor
  · exact countP_anchors_le sorted (fun _ => h.newest_of_protected) pos nodup hkept
  · have hdiff : (s.runGc.1.db.gcVersions account gameId).countP (fun u => u.kind = .differential) =
        (s.runGc.1.db.gcVersions account gameId).countP (fun u => u.isFull = false) := by
      refine List.countP_congr fun u _ => ?_
      cases hkind : u.kind with
      | full | differential => simp [Db.GcVersion.isFull, hkind]
    rw [hdiff]
    exact countP_members_le sorted (fun _ => h.newest_of_protected) nodup hkept

end Server

/-! ### Runs -/

/-- A step of a history of the game without conflicts, under a fixed retention: its
uploads are fast-forwards, the first is a full, and there is nothing to resolve.
Everything else may happen to other games. -/
structure LinearStep (account : AccountId) (gameId : GameId) (s : Server) (event : ServerEvent)
    (s' : Server) : Prop where
  step : ServerStep s event s'
  retention : s'.db.configRetention account = s.db.configRetention account
  upload : ∀ c reply, event = .tx (.create c reply) → c.account = account → c.gameId = gameId →
    (∀ head incoming, reply ≠ .ok (.conflict head incoming)) ∧
      (s.db.gameRows account gameId = [] → c.req.kind = .full)
  resolution : ∀ c reply, event = .tx (.resolve c reply) → (c.account, c.gameId) ≠ (account, gameId)

section Step

variable {s s' : Server} {event : ServerEvent} {account : AccountId} {gameId : GameId}

/-- An upload to the end of the line. -/
theorem Db.Linear.created {db : Db} (h : db.Linear account gameId) {game : GameRow}
    (hgame : db.findGame account gameId = some game) {req : CreateVersion} {id : VersionId}
    {now : Timestamp} (hparent : db.head account gameId = req.parent)
    (hid : ∀ v ∈ db.versions, v.id ≠ id)
    (hfirst : db.gameRows account gameId = [] → req.kind = .full) :
    (db.created account gameId req id now).Linear account gameId := by
  have hhead : (db.created account gameId req id now).head account gameId = some id := by
    rw [Db.head_created hgame, if_pos hparent]
  have hseq : ∀ v ∈ db.gameRows account gameId,
      v.seq < (db.newRow account gameId req id now).seq := by
    intro v hv
    obtain ⟨hv, hg, -⟩ := Db.mem_gameRows.mp hv
    exact hg ▸ Db.seq_lt_nextSeq hv
  have hrows : ∀ v, v ∈ (db.created account gameId req id now).gameRows account gameId ↔
      v ∈ db.gameRows account gameId ∨ v = db.newRow account gameId req id now := by
    intro v
    rw [Db.gameRows_created, List.mem_append, List.mem_singleton]
  refine ⟨fun v hv => ?_, fun v hv w hw hlt => ?_, fun v hv => ?_⟩
  · rw [hhead]
    rcases (hrows v).mp hv with hv | rfl
    · -- an old version is neither the head nor the newest any more
      refine iff_of_false (fun heq => ?_) fun hmax => ?_
      · exact hid v (Db.mem_gameRows.mp hv).1 (Option.some.inj heq).symm
      · exact absurd (hmax _ ((hrows _).mpr (Or.inr rfl))) (not_le.mpr (hseq v hv))
    · refine iff_of_true rfl fun w hw => ?_
      rcases (hrows w).mp hw with hw | rfl
      · exact (hseq w hw).le
      · exact le_rfl
  · rcases (hrows v).mp hv with hv | rfl
    · by_cases hnewest : ∀ w ∈ db.gameRows account gameId, w.seq ≤ v.seq
      · refine ⟨_, (hrows _).mpr (Or.inr rfl), ?_⟩
        exact hparent.symm.trans ((h.head v hv).mpr hnewest)
      · push Not at hnewest
        obtain ⟨x, hx, hvx⟩ := hnewest
        obtain ⟨c, hc, hcv⟩ := h.child v hv x hx hvx
        exact ⟨c, (hrows c).mpr (Or.inl hc), hcv⟩
    · rcases (hrows w).mp hw with hw | rfl
      · exact absurd hlt (hseq w hw).not_gt
      · exact absurd hlt (lt_irrefl _)
  · rcases (hrows v).mp hv with hv | rfl
    · obtain ⟨f, hf, hfull⟩ := h.full v hv
      exact ⟨f, (hrows f).mpr (Or.inl hf), hfull⟩
    · cases hold : db.gameRows account gameId with
      | nil => exact ⟨_, (hrows _).mpr (Or.inr rfl), hfirst hold, le_rfl⟩
      | cons x rest =>
          have hx : x ∈ db.gameRows account gameId := by simp [hold]
          obtain ⟨f, hf, hfull, hle⟩ := h.full x hx
          exact ⟨f, (hrows f).mpr (Or.inl hf), hfull, hle.trans (hseq x hx).le⟩

/-- **The line survives every step** that cuts no group. -/
theorem LinearStep.linear (h : LinearStep account gameId s event s') (wf : s.db.WF)
    (line : s.db.Linear account gameId) (pos : 0 < (s.db.configRetention account).full)
    (fits : event = .gc → s.db.GroupsFit account gameId) : s'.db.Linear account gameId := by
  obtain ⟨step, -, upload, resolution⟩ := h
  cases step with
  | gc => exact Server.linear_runGc wf line pos (fits rfl)
  | config rows => exact line.congr rfl rfl
  | tx objects tx =>
      cases tx with
      | recordBlob hash bytes now =>
          refine line.congr ?_ (Db.head_recordBlob hash bytes)
          rw [Db.gameRows, (Db.recordBlob_frame hash bytes).2.1, Db.gameRows]
      | resolve c =>
          have hne := resolution c _ rfl
          rcases Db.resolveConflict_cases wf.gameIds c.account c.gameId c.winner c.keepBoth c.id
            c.now with
            ⟨-, heq⟩ | ⟨game, -, -, heq⟩ | ⟨game, row, -, -, -, heq⟩
          · rw [Db.resolve, heq]
            exact line
          · rw [Db.resolve, heq]
            exact line
          · rw [Db.resolve, heq]
            exact line.congr rfl (Db.head_resolved_of_ne s.db hne.symm)
      | create c fresh =>
          rcases Db.createVersion_cases wf c.account c.gameId c.now fresh.1 with
            ⟨e, -, heq⟩ | ⟨game, hgame, -, hid, -, heq⟩
          · rw [Db.create, heq]
            exact line
          · by_cases hsame : (account, gameId) = (c.account, c.gameId)
            · obtain ⟨rfl, rfl⟩ := Prod.mk.inj hsame
              obtain ⟨hforward, hfirst⟩ := upload c _ rfl rfl rfl
              have hparent : s.db.head c.account c.gameId = c.req.parent := by
                by_contra hp
                rw [Db.create, heq, if_neg hp] at hforward
                exact hforward _ _ rfl
              rw [Db.create, heq]
              exact line.created hgame hparent hid hfirst
            · rw [Db.create, heq]
              exact line.congr (Db.gameRows_created_of_ne s.db hsame _ _ _)
                (Db.head_created_of_ne s.db hsame _ _ _)

end Step

/-- A step that cuts no group: right before a retention run, no more than the
differentials it keeps are behind each full it keeps, or only the head. -/
structure FittingStep (account : AccountId) (gameId : GameId) (s : Server) (event : ServerEvent)
    (s' : Server) : Prop extends LinearStep account gameId s event s' where
  fits : event = .gc → s.db.GroupsFit account gameId

variable {s s₀ : Server} {trace : List ServerEvent} {account : AccountId} {gameId : GameId}

/-- A run of uploads that fit leaves a linear history. -/
theorem fittingRun_linear (fresh : s₀.db.Fresh) (pos : 0 < (s₀.db.configRetention account).full)
    (run : Run (FittingStep account gameId) s₀ trace s) :
    s.db.WF ∧ s.db.Linear account gameId ∧
      s.db.configRetention account = s₀.db.configRetention account := by
  refine run.invariant (I := fun s => s.db.WF ∧ s.db.Linear account gameId ∧
    s.db.configRetention account = s₀.db.configRetention account) ?_ ⟨fresh.wf, ?_, rfl⟩
  · rintro s event s' ⟨wf, line, hretention⟩ hstep
    rw [← hretention] at pos ⊢
    exact ⟨hstep.step.wf wf, hstep.linear wf line pos hstep.fits, hstep.retention⟩
  · have hempty : s₀.db.gameRows account gameId = [] := by simp [Db.gameRows, fresh.noVersions]
    refine ⟨?_, ?_, ?_⟩
    · simp [hempty]
    · simp [hempty]
    · simp [hempty]

/-- **Retention is effective on a history without conflicts.**  In every run of one game
whose uploads are all fast-forwards, starting with a full, under a fixed retention of N
fulls and M differentials per full: as long as no retention run found more than M
differentials behind one of the newest N fulls (or one that is the head), each run leaves
at most N fulls and N * M + 1 differentials. -/
theorem linear_history_bounded (fresh : s₀.db.Fresh)
    (pos : 0 < (s₀.db.configRetention account).full)
    (run : Run (FittingStep account gameId) s₀ trace s) :
    (s.runGc.1.db.gameRows account gameId).countP (fun v => v.kind = .full) ≤
        (s₀.db.configRetention account).full ∧
      (s.runGc.1.db.gameRows account gameId).countP (fun v => v.kind = .differential) ≤
        (s₀.db.configRetention account).full * (s₀.db.configRetention account).diffPerFull +
          1 := by
  obtain ⟨wf, line, hretention⟩ := fittingRun_linear fresh pos run
  rw [← hretention] at pos ⊢
  exact Server.counts_runGc wf line pos

/-! ### A full that is never removed again -/

/-- A fast-forward is a step of a history without conflicts. -/
theorem linearStep_create {c : CreateCall} (fresh : c.Fresh s.db)
    (forward : ∃ v, (s.db.create c).2 = .ok (.fastForward v))
    (retention : (s.db.create c).1.configRetention c.account = s.db.configRetention c.account)
    (first : s.db.gameRows c.account c.gameId = [] → c.req.kind = .full) :
    LinearStep c.account c.gameId s (.tx (.create c (s.db.create c).2))
      { s with db := (s.db.create c).1 } where
  step := ServerStep.tx _ (TxStep.create c fresh)
  retention := retention
  upload c' reply heq _ _ := by
    injection heq with heq
    obtain ⟨rfl, rfl⟩ := TxEvent.create.inj heq
    refine ⟨fun head incoming hconflict => ?_, first⟩
    obtain ⟨v, hv⟩ := forward
    rw [hv] at hconflict
    cases hconflict
  resolution c' reply heq := by
    injection heq with heq
    cases heq

/-- A retention run keeps a history linear. -/
theorem linearStep_gc (wf : s.db.WF) : LinearStep account gameId s .gc s.runGc.1 where
  step := ServerStep.gc
  retention := by
    obtain ⟨s', stats, dead, hrun, hpruned, -⟩ := Server.runGc_spec wf
    rw [hrun]
    exact hpruned.thinned.configRetention
  upload c reply heq := by cases heq
  resolution c reply heq := by cases heq

/-- A full whose parent is version 103. -/
def fullBackup : CreateCall :=
  { chainedBackup 1 with
    req := { (chainedBackup 1).req with parent := some 103 }
    id := 104
    now := 4 }

/-- A full and two differentials, a run, and another full. -/
def fullAfterCut : Server :=
  { (afterBackups 3).runGc.1 with db := ((afterBackups 3).runGc.1.db.create fullBackup).1 }

/-- Three backups in a row are such a run. -/
theorem afterBackups_linear_run :
    Run (LinearStep 1 10) smallRetentionServer
      [.tx (.create (chainedBackup 1) (smallRetentionServer.db.create (chainedBackup 1)).2),
       .tx (.create (chainedBackup 2) ((afterBackups 1).db.create (chainedBackup 2)).2),
       .tx (.create (chainedBackup 3) ((afterBackups 2).db.create (chainedBackup 3)).2)]
      (afterBackups 3) :=
  ((Run.single (linearStep_create (c := chainedBackup 1) ⟨by decide, by decide⟩ ⟨_, rfl⟩
      (by decide) (by decide))).snoc
    (linearStep_create (c := chainedBackup 2) ⟨by decide, by decide⟩ ⟨_, rfl⟩
      (by decide) (by decide))).snoc
    (linearStep_create (c := chainedBackup 3) ⟨by decide, by decide⟩ ⟨_, rfl⟩
      (by decide) (by decide))

/-- With one differential behind it the full is not cut off, and the bound holds. -/
theorem linear_history_bounded_afterBackups :
    ((afterBackups 2).runGc.1.runGc.1.db.gameRows 1 10).countP (fun v => v.kind = .full) ≤ 1 ∧
      ((afterBackups 2).runGc.1.runGc.1.db.gameRows 1 10).countP
        (fun v => v.kind = .differential) ≤ 1 * 1 + 1 := by
  have first : FittingStep 1 10 smallRetentionServer _ (afterBackups 1) :=
    ⟨linearStep_create (c := chainedBackup 1) ⟨by decide, by decide⟩ ⟨_, rfl⟩ (by decide)
      (by decide), fun h => by cases h⟩
  have second : FittingStep 1 10 (afterBackups 1) _ (afterBackups 2) :=
    ⟨linearStep_create (c := chainedBackup 2) ⟨by decide, by decide⟩ ⟨_, rfl⟩ (by decide)
      (by decide), fun h => by cases h⟩
  have wf : (afterBackups 2).db.WF :=
    second.step.wf (first.step.wf smallRetentionServer_fresh.wf)
  have third : FittingStep 1 10 (afterBackups 2) .gc (afterBackups 2).runGc.1 :=
    ⟨linearStep_gc wf, fun _ => by decide⟩
  exact linear_history_bounded smallRetentionServer_fresh (by decide)
    (((Run.single first).snoc second).snoc third)

/-- N = M = 1: the first run keeps the full and the newest differential, and cuts the one
between them.  When the next full comes, the first one is not removed: two fulls are left
where one should be. -/
theorem cut_full_survives :
    smallRetentionServer.db.Fresh ∧
      smallRetentionServer.db.configRetention 1 = { full := 1, diffPerFull := 1 } ∧
      (∃ trace, Run (LinearStep 1 10) smallRetentionServer trace fullAfterCut) ∧
      (fullAfterCut.runGc.1.db.gameRows 1 10).countP (fun v => v.kind = .full) = 2 := by
  refine ⟨smallRetentionServer_fresh, by decide, ?_, by decide⟩
  have wf := serverRun_wf afterBackups_reachable.choose_spec smallRetentionServer_fresh.wf
  exact ⟨_, (afterBackups_linear_run.snoc (linearStep_gc wf)).snoc
    (linearStep_create (c := fullBackup) ⟨by decide, by decide⟩ ⟨_, rfl⟩ (by decide)
      (by decide))⟩

end Savr
