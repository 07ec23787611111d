import Savr.System.Fidelity

/-!
# What operations do to one game

A device handles many games, and an operation on one of them leaves the others alone: on
the server their history and head (`SameGame`), on the device their snapshots.
-/

namespace Savr

section General

variable [Blake3]

/-! ### What happens to one game -/

/-- The history and the head of a game are the same on both servers. -/
structure SameGame (account : AccountId) (gameId : GameId) (s s' : Server) : Prop where
  versions : s'.db.listVersions account gameId = s.db.listVersions account gameId
  head : s'.db.head account gameId = s.db.head account gameId

/-- The action asks the server to change the history or the head of the game. -/
def Action.Writes (account : AccountId) (gameId : GameId) (m : Machine) : Action → Prop
  | .request (.createVersion g _ _ _) | .request (.resolve g _ _ _ _) =>
      m.device.accountId = account ∧ g = gameId
  | _ => False

variable {account : AccountId} {gameId : GameId} {m : Machine} {s s' s'' : Server}

omit [Blake3] in
theorem SameGame.refl (s : Server) : SameGame account gameId s s :=
  ⟨rfl, rfl⟩

omit [Blake3] in
theorem SameGame.trans (h : SameGame account gameId s s') (h' : SameGame account gameId s' s'') :
    SameGame account gameId s s'' :=
  ⟨h'.versions.trans h.versions, h'.head.trans h.head⟩

/-- An action that does not write the game leaves its head, its versions and what they name
as they were. -/
theorem sameGame_apply (sound : m.server.Sound) {a : Action} (fresh : m.FreshAction a)
    (hother : ¬ a.Writes account gameId m) :
    SameGame account gameId m.server (m.apply a).server := by
  cases a with
  | write w => exact SameGame.refl _
  | request r =>
      cases r with
      | blobPut hash body now =>
          refine ⟨?_, Server.blobPut_head⟩
          change Db.listVersions (m.server.blobPut hash body now).1.db _ _ = _
          rw [Db.listVersions, Db.gameRows, Server.blobPut_versions]
          rfl
      | createVersion g req id now =>
          have hne : (account, gameId) ≠ (m.device.accountId, g) := by
            rintro heq
            cases heq
            exact hother ⟨rfl, rfl⟩
          change SameGame account gameId m.server (m.server.createVersion m.authed g req id now).1
          rcases Server.createVersion_cases sound m.authed g now fresh.1 with
            ⟨e, heq⟩ | ⟨-, -, -, -, advance, -, heq⟩
          · rw [heq]
            exact SameGame.refl _
          · rw [heq]
            exact ⟨Db.listVersions_created_of_ne _ hne _ _ _, Db.head_created_of_ne _ hne _ _ _⟩
      | resolve g winner keepBoth id now =>
          have hne : (account, gameId) ≠ (m.device.accountId, g) := by
            rintro heq
            cases heq
            exact hother ⟨rfl, rfl⟩
          change SameGame account gameId m.server
            (m.server.resolve m.authed g winner keepBoth id now).1
          rw [Server.resolve_server]
          rcases Db.resolveConflict_cases sound.wf.gameIds m.authed.accountId g winner keepBoth id
            now with ⟨-, heq⟩ | ⟨game, -, -, heq⟩ | ⟨game, row, -, -, -, heq⟩
          · rw [heq]
            exact SameGame.refl _
          · rw [heq]
            exact SameGame.refl _
          · rw [heq]
            exact ⟨rfl, Db.head_resolved_of_ne _ hne⟩

/-- The lemma above along a script, each action taken in the machine the ones before it left. -/
theorem sameGame_run (sound : m.server.Sound) {as : List Action} (fresh : m.FreshFor as)
    (hother : ∀ a ∈ as, ¬ a.Writes account gameId m) :
    SameGame account gameId m.server (m.run as).server := by
  induction as generalizing m with
  | nil => exact SameGame.refl _
  | cons a as ih =>
      obtain ⟨hsound, -, hacc⟩ := Machine.run_sound sound
        (show m.FreshFor [a] from ⟨fresh.1, trivial⟩)
      refine (sameGame_apply sound fresh.1 (hother a (by simp))).trans
        (ih (m := m.apply a) hsound fresh.2 fun b hb hwrites => hother b (by simp [hb]) ?_)
      unfold Action.Writes at hwrites ⊢
      rw [show (m.apply a).device.accountId = m.device.accountId from hacc] at hwrites
      exact hwrites

/-! ### Operations on another game -/

/-- The action concerns one game only: the base of it on the device, or its history and
head on the server. -/
def Action.about (gameId : GameId) : Action → Prop
  | .write w => w.about gameId
  | .request (.createVersion g _ _ _) | .request (.resolve g _ _ _ _) => g = gameId
  | .request (.blobPut _ _ _) => True

/-- **Actions about one game leave the others alone.** -/
theorem frame_of_about (account : AccountId) (sound : m.server.Sound) {as : List Action}
    (fresh : m.FreshFor as) (habout : ∀ a ∈ as, a.about gameId) {g : GameId} (hg : g ≠ gameId) :
    SameGame account g m.server (m.run as).server ∧
      (m.run as).device.state.snapshots g = m.device.state.snapshots g := by
  constructor
  · refine sameGame_run sound fresh fun a ha hwrites => ?_
    have h := habout a ha
    unfold Action.Writes at hwrites
    split at hwrites
    · exact hg (hwrites.2.symm.trans h)
    · exact hg (hwrites.2.symm.trans h)
    · exact hwrites
  · clear sound fresh
    induction as generalizing m with
    | nil => rfl
    | cons a as ih =>
        rw [Machine.run_cons, ih fun b hb => habout b (by simp [hb])]
        cases a with
        | write w =>
            have hw : w.about gameId := habout (.write w) (by simp)
            exact (hw.apply m.device hg).1
        | request r => rfl

/-- A backup concerns its own game. -/
theorem runBackup_about (m : Machine) (job : BackupJob) (env : BackupEnv) :
    ∀ a ∈ (runBackup m job env).2, a.about job.gameId := by
  have hupload : ∀ (p : Packed), ∀ a ∈ p.pack :: (p.upload (m.apply p.pack) job.gameId env).1,
      a.about job.gameId := by
    intro p a ha
    rcases List.mem_cons.mp ha with rfl | ha
    · exact trivial
    · rcases p.mem_upload ha with ⟨body, rfl⟩ | rfl
      · exact trivial
      · rfl
  intro a ha
  rcases runBackup_cases m job env with
    ⟨-, heq⟩ | ⟨p, -, ⟨advance, -, heq⟩ | ⟨-, heq⟩⟩
  · rw [heq] at ha
    cases ha
  · rw [heq] at ha
    rcases List.mem_append.mp ha with ha | ha
    · exact hupload p a ha
    · cases advance with
      | fastForward version =>
          simp only [settleBackup, confirmBackup, List.mem_cons, List.not_mem_nil, or_false] at ha
          rcases ha with rfl | rfl | rfl | rfl | rfl <;> simp [Action.about, Write.about]
      | conflict head incoming =>
          simp only [settleBackup, recordBranch, List.mem_cons, List.not_mem_nil, or_false] at ha
          rcases ha with rfl | rfl | rfl <;> simp [Action.about, Write.about]
  · rw [heq] at ha
    rcases List.mem_append.mp ha with ha | ha
    · exact hupload p a ha
    · simp only [queueBackup, List.mem_cons, List.not_mem_nil, or_false] at ha
      rcases ha with rfl | rfl | rfl <;> simp [Action.about, Write.about]

end General

end Savr
