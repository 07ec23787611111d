import Savr.Daemon.Engine
import Savr.Server.ApiSpec
import Savr.Server.Retention

/-!
# What a resolution leaves behind

The user decides between two tips.  The daemon sends the tip to keep; the server
makes it the head and records the head it replaced as the loser, because "recording
the loser lets retention know that branch tip is safe to prune".  Keeping theirs
replaces no head, so nothing is recorded: the tip the user decided against goes on
being an unresolved one.

`resolution_closes_iff` says exactly when a decision is one for retention too.
-/

namespace Savr

open LabelledRun

namespace Db

/-- A resolution of this game recorded the version as a loser. -/
def RecordedLoser (db : Db) (account : AccountId) (gameId : GameId) (id : VersionId) : Prop :=
  ∃ r ∈ db.resolvedConflicts, r.gameId = gameId ∧ r.accountId = account ∧ r.loser = id

variable {db : Db} {account : AccountId} {gameId : GameId} {id : VersionId}

/-- A tip other than the head is protected until it is recorded as a loser. -/
theorem protected_iff_not_recordedLoser (hhead : db.head account gameId ≠ some id)
    (tip : ∀ v ∈ db.gameRows account gameId, v.parent ≠ some id) :
    db.Protected account gameId id ↔ ¬ db.RecordedLoser account gameId id := by
  constructor
  · rintro (heq | ⟨-, hfree⟩) ⟨r, hr, hg, ha, hloser⟩
    · exact hhead heq
    · exact hfree r hr hg ha hloser
  · intro hnot
    exact Or.inr ⟨tip, fun r hr hg ha hloser => hnot ⟨r, hr, hg, ha, hloser⟩⟩

/-- A recorded loser other than the head is not protected, tip or not. -/
theorem RecordedLoser.not_protected (h : db.RecordedLoser account gameId id)
    (hhead : db.head account gameId ≠ some id) : ¬ db.Protected account gameId id := by
  obtain ⟨r, hr, hg, ha, hloser⟩ := h
  rintro (heq | ⟨-, hfree⟩)
  · exact hhead heq
  · exact hfree r hr hg ha hloser

/-- What a resolution records: the replaced head, if it is replaced. -/
theorem recordedLoser_resolved {winner cur : VersionId} {keepBoth : Bool} {uuid : Uuid}
    {now : Timestamp} :
    (db.resolved account gameId winner keepBoth uuid now (some cur)).RecordedLoser account
        gameId id ↔
      db.RecordedLoser account gameId id ∨ (id = cur ∧ cur ≠ winner) := by
  by_cases hsame : cur = winner
  · simp [RecordedLoser, resolved, loserRows, hsame]
  · simp only [RecordedLoser, resolved, loserRows, if_neg hsame, List.mem_append,
      List.mem_singleton]
    constructor
    · rintro ⟨r, hr | rfl, hg, ha, hloser⟩
      · exact Or.inl ⟨r, hr, hg, ha, hloser⟩
      · exact Or.inr ⟨hloser.symm, hsame⟩
    · rintro (⟨r, hr, hg, ha, hloser⟩ | ⟨rfl, -⟩)
      · exact ⟨r, Or.inl hr, hg, ha, hloser⟩
      · exact ⟨_, Or.inr rfl, rfl, rfl, rfl⟩

end Db

namespace Engine

/-- The tip that a choice decides against. -/
def rejectedTip (tips : ConflictTips) : ResolveChoice → VersionId
  | .keepMine | .keepBoth => tips.theirs
  | .keepTheirs => tips.mine

theorem winner_ne_rejectedTip {tips : ConflictTips} (hne : tips.mine ≠ tips.theirs)
    (choice : ResolveChoice) : (resolveRequest tips choice).winner ≠ rejectedTip tips choice := by
  cases choice with
  | keepMine | keepBoth => exact hne
  | keepTheirs => exact hne.symm

end Engine

variable {s s₀ : Server} {trace : List ServerEvent} {e : Engine} {gameId : GameId}
  {tips : ConflictTips}

/-- Both tips of a conflict with the head are versions of the game. -/
theorem Engine.exists_winner (wf : s.db.WF)
    (hhead : s.db.head e.auth.accountId gameId = some tips.theirs)
    (hmine : ∃ v ∈ s.db.gameRows e.auth.accountId gameId, v.id = tips.mine)
    (choice : ResolveChoice) :
    ∃ v ∈ s.db.gameRows e.auth.accountId gameId,
      v.id = (resolveRequest tips choice).winner := by
  cases choice with
  | keepMine | keepBoth => exact hmine
  | keepTheirs =>
      obtain ⟨v, hv, hid, -⟩ := wf.exists_headVersion hhead
      exact ⟨v, hv, hid⟩

/-- The resolution of a conflict between the head and another version of the game is
accepted. -/
theorem Engine.resolveConflict_eq (wf : s.db.WF) (pending : e.conflicts gameId = some tips)
    (hhead : s.db.head e.auth.accountId gameId = some tips.theirs)
    (hmine : ∃ v ∈ s.db.gameRows e.auth.accountId gameId, v.id = tips.mine)
    (choice : ResolveChoice) (uuid : Uuid) (now : Timestamp) :
    let request := resolveRequest tips choice
    let answer := e.resolveConflict s gameId choice uuid now true
    answer.2.2.2 = .ok ∧
      answer.2.1.db = s.db.resolved e.auth.accountId gameId request.winner request.keepBoth
        uuid now (some tips.theirs) ∧
      answer.2.1.db.head e.auth.accountId gameId = some request.winner := by
  obtain ⟨v, hv, hid⟩ := exists_winner (e := e) wf hhead hmine choice
  rcases Db.resolveConflict_cases wf.gameIds e.auth.accountId gameId
    (resolveRequest tips choice).winner (resolveRequest tips choice).keepBoth uuid now
    with ⟨hnone, -⟩ | ⟨game, -, hother, -⟩ | ⟨game, row, -, hgame, -, heq⟩
  · rw [Db.head, hnone] at hhead
    cases hhead
  · exact absurd hid (hother v hv)
  · have hcur : game.head = some tips.theirs := by
      rw [Db.head, hgame] at hhead
      exact hhead
    rw [hcur] at heq
    simp only [resolveConflict, pending, Server.resolve, heq, if_true]
    refine ⟨trivial, trivial, ?_⟩
    rw [← hcur]
    exact Db.head_resolved hgame

/-- **When a resolution closes its conflict.**  After any history of the server, for
every conflict between the head and another tip, and each choice: the resolution is
accepted and the kept tip is the head; and the other one is a recorded loser, which
retention no longer counts as an unresolved tip, if and only if the choice is not to
keep theirs, or that tip was recorded as a loser before. -/
theorem resolution_closes_iff (fresh : s₀.db.Fresh) (run : Run ServerStep s₀ trace s)
    (pending : e.conflicts gameId = some tips)
    (hhead : s.db.head e.auth.accountId gameId = some tips.theirs)
    (hmine : ∃ v ∈ s.db.gameRows e.auth.accountId gameId, v.id = tips.mine)
    (tip : ∀ v ∈ s.db.gameRows e.auth.accountId gameId, v.parent ≠ some tips.mine)
    (hne : tips.mine ≠ tips.theirs)
    (choice : ResolveChoice) (uuid : Uuid) (now : Timestamp) :
    let answer := e.resolveConflict s gameId choice uuid now true
    let rejected := Engine.rejectedTip tips choice
    let closes := choice ≠ .keepTheirs ∨ s.db.RecordedLoser e.auth.accountId gameId tips.mine
    answer.2.2.2 = .ok ∧
      answer.2.1.db.head e.auth.accountId gameId =
        some (Engine.resolveRequest tips choice).winner ∧
      (answer.2.1.db.RecordedLoser e.auth.accountId gameId rejected ↔ closes) ∧
      (¬ answer.2.1.db.Protected e.auth.accountId gameId rejected ↔ closes) := by
  intro answer rejected closes
  obtain ⟨hok, hdb, hwinner⟩ := Engine.resolveConflict_eq (serverRun_wf run fresh.wf) pending
    hhead hmine choice uuid now
  have hrecorded : answer.2.1.db.RecordedLoser e.auth.accountId gameId rejected ↔ closes := by
    rw [hdb, Db.recordedLoser_resolved]
    cases choice with
    | keepMine | keepBoth =>
        exact iff_of_true (Or.inr ⟨rfl, hne.symm⟩) (Or.inl (by decide))
    | keepTheirs =>
        -- the winner is the head that was read, so no row is added
        simp [rejected, closes, Engine.rejectedTip, Engine.resolveRequest]
  have hnothead : answer.2.1.db.head e.auth.accountId gameId ≠ some rejected := by
    rw [hwinner]
    exact fun heq => Engine.winner_ne_rejectedTip hne choice (Option.some.inj heq)
  refine ⟨hok, hwinner, hrecorded, ?_⟩
  rw [← hrecorded]
  refine ⟨fun hnot => ?_, fun h => h.not_protected hnothead⟩
  cases choice with
  | keepMine | keepBoth => exact hrecorded.mpr (Or.inl (by decide))
  | keepTheirs =>
      have htip : ∀ v ∈ answer.2.1.db.gameRows e.auth.accountId gameId,
          v.parent ≠ some rejected := by
        rw [hdb]
        exact tip
      rw [Db.protected_iff_not_recordedLoser hnothead htip, not_not] at hnot
      exact hnot

/-! ### A decision that is not recorded -/

/-- A second full, without the first as its parent. -/
def divergentBackup : CreateCall :=
  { chainedBackup 1 with
    req := { (chainedBackup 1).req with blobHash := ⟨[2]⟩ }
    id := 102
    now := 2 }

/-- Version 101 is the head, version 102 a divergent tip. -/
def divergedServer : Server :=
  { afterBackups 1 with db := ((afterBackups 1).db.create divergentBackup).1 }

/-- The device that uploaded version 102. -/
def divergedEngine : Engine where
  auth := { accountId := 1, deviceId := 21 }
  conflicts := fun gameId => if gameId = 10 then some { mine := 102, theirs := 101 } else none

theorem divergedServer_reachable :
    ∃ trace, Run ServerStep smallRetentionServer trace divergedServer :=
  ⟨_, (afterBackups_step 0 ⟨by decide, by decide⟩).snoc
    (ServerStep.tx _ (TxStep.create divergentBackup ⟨by decide, by decide⟩))⟩

/-- Keeping theirs is accepted, leaves 101 the head, and records nothing: 102 is still an
unresolved tip. -/
theorem keepTheirs_leaves_tip :
    smallRetentionServer.db.Fresh ∧
      (∃ trace, Run ServerStep smallRetentionServer trace divergedServer) ∧
      divergedEngine.conflicts 10 = some { mine := 102, theirs := 101 } ∧
      divergedServer.db.head 1 10 = some 101 ∧
      (∀ v ∈ divergedServer.db.gameRows 1 10, v.parent ≠ some 102) ∧
      (divergedEngine.resolveConflict divergedServer 10 .keepTheirs 900 3 true).2.2.2 = .ok ∧
      (divergedEngine.resolveConflict divergedServer 10 .keepTheirs 900 3
        true).2.1.db.head 1 10 = some 101 ∧
      (divergedEngine.resolveConflict divergedServer 10 .keepTheirs 900 3
        true).2.1.db.resolvedConflicts = [] ∧
      (divergedEngine.resolveConflict divergedServer 10 .keepTheirs 900 3
        true).2.1.db.Protected 1 10 102 :=
  ⟨smallRetentionServer_fresh, divergedServer_reachable, rfl, by decide, by decide, by decide,
    by decide, by decide, Or.inr ⟨by decide, by decide⟩⟩

/-- Keeping mine closes the same conflict. -/
theorem keepMine_closes_conflict :
    let answer := divergedEngine.resolveConflict divergedServer 10 .keepMine 900 3 true
    answer.2.1.db.RecordedLoser 1 10 101 ∧ ¬ answer.2.1.db.Protected 1 10 101 := by
  obtain ⟨trace, run⟩ := divergedServer_reachable
  obtain ⟨-, -, hrecorded, hprotected⟩ := resolution_closes_iff smallRetentionServer_fresh run
    (e := divergedEngine) (show divergedEngine.conflicts 10 = some { mine := 102, theirs := 101 }
      from rfl) (by decide) (by decide) (by decide) (by decide) .keepMine 900 3
  exact ⟨hrecorded.mpr (Or.inl (by decide)), hprotected.mpr (Or.inl (by decide))⟩

end Savr
