import Savr.Server.Retention

/-!
# Lineage and sequence numbers

`seq` is the largest number among the stored versions of a game plus one, and a
retention run removes versions.  Two things rest on it all the same: the daemon's
`build_chain`, an unbounded loop over parent pointers, ends because a parent has a
smaller `seq` than its child; and a device that reports the last `seq` it saw
relies on numbers not being given twice.

## Main results

* `lineage_acyclic_and_chains_end` — parents are older, so every chain is finite.
* `gc_keeps_newest` — a retention that keeps at least one full and one differential
  for each never prunes the newest version of a game that starts with a full.
* `seq_never_reused` — the numbers given to the versions of a game only grow.
-/

namespace Savr

open LabelledRun RankedList

variable {s s' s₀ : Server} {trace : List ServerEvent} {account : AccountId} {gameId : GameId}

/-! ### Chains end -/

/-- In a listed history a parent is older than its child. -/
theorem Db.WF.parentsOlder {db : Db} (wf : db.WF) (account : AccountId) (gameId : GameId) :
    ParentsOlder (db.listVersions account gameId) := by
  intro v hv u hu hp
  obtain ⟨vrow, hvrow, hvg, -, rfl⟩ := Db.mem_listVersions.mp hv
  obtain ⟨urow, hurow, hug, -, rfl⟩ := Db.mem_listVersions.mp hu
  obtain ⟨w, hw, hwid, hlt⟩ := wf.parentOlder vrow hvrow _ hp
  obtain rfl := List.inj_on_of_nodup_map wf.versionIds hw hurow hwid
  exact hlt (hug.trans hvg.symm)

/-- **Lineage is acyclic and chains end.**  In every reachable state a version is
younger than its parent within the game.  `build_chain` on the listed versions ends
for every target within one step for each version: with an error, or with a chain
that starts with a full, goes on with differentials, increases in `seq` and ends
with the target. -/
theorem lineage_acyclic_and_chains_end (fresh : s₀.db.Fresh) (run : Run ServerStep s₀ trace s) :
    (∀ v ∈ s.db.versions, ∀ u ∈ s.db.versions, v.parent = some u.id → u.gameId = v.gameId →
      u.seq < v.seq) ∧
    ∀ account gameId target,
      (∃ e, buildChain (s.db.listVersions account gameId) target = some (.error e)) ∨
      ∃ chain, buildChain (s.db.listVersions account gameId) target = some (.ok chain) ∧
        chain.length ≤ (s.db.listVersions account gameId).length ∧
        chain.Pairwise (fun u v => u.seq < v.seq) ∧
        (∃ full diffs, chain = full :: diffs ∧ full.kind = .full ∧
          ∀ d ∈ diffs, d.kind = .differential) ∧
        ∃ before last, chain = before ++ [last] ∧ last.id = target := by
  have wf := serverRun_wf run fresh.wf
  constructor
  · intro v hv u hu hp hg
    obtain ⟨w, hw, hwid, hlt⟩ := wf.parentOlder v hv _ hp
    obtain rfl := List.inj_on_of_nodup_map wf.versionIds hw hu hwid
    exact hlt hg
  · intro account gameId target
    have distinct := wf.distinctIds account gameId
    have older := wf.parentsOlder account gameId
    obtain ⟨r, hr⟩ := buildChain_ends older distinct target
    cases r with
    | error e => exact Or.inl ⟨e, hr⟩
    | ok chain =>
        have chainTo := (buildChain_eq_ok_iff distinct).mp hr
        obtain ⟨hshape, hlast⟩ := chainTo.shape distinct
        have increasing := chainTo.increasing older distinct
        refine Or.inr ⟨chain, hr, ?_, increasing, hshape, hlast⟩
        have hnodup : chain.Nodup := increasing.imp fun {u v} hlt heq => by
          rw [heq] at hlt
          exact absurd hlt (Nat.lt_irrefl _)
        exact hnodup.length_le_of_subset fun v hv => chainTo.mem distinct v (by simpa using hv)

/-- After retention cut the chain of the head, `build_chain` ends with an error. -/
theorem cut_chain_ends :
    (∃ trace, Run ServerStep smallRetentionServer trace (afterBackups 3).runGc.1) ∧
      ∃ e, buildChain ((afterBackups 3).runGc.1.db.listVersions 1 10) 103 = some (.error e) := by
  obtain ⟨trace, run⟩ := afterBackups_reachable
  have run' : Run ServerStep smallRetentionServer (trace ++ [.gc]) (afterBackups 3).runGc.1 :=
    Run.snoc run ServerStep.gc
  refine ⟨⟨_, run'⟩, ?_⟩
  rcases (lineage_acyclic_and_chains_end smallRetentionServer_fresh run').2 1 10 103 with
    herror | ⟨chain, hok, -⟩
  · exact herror
  · have hcut : buildChain ((afterBackups 3).runGc.1.db.listVersions 1 10) 103 =
        some (.error (.neverFull 103)) := by decide
    rw [hcut] at hok
    cases hok

/-! ### The newest version survives -/

/-- What the settings form allows: at least one full, and one differential for
each. -/
def Retention.KeepsSome (r : Retention) : Prop :=
  1 ≤ r.full ∧ 1 ≤ r.diffPerFull

/-- If every stored retention keeps some versions, the one that is used does: it is stored or
the default. -/
theorem Db.configRetention_keepsSome {db : Db}
    (config : ∀ c ∈ db.config, c.retention.KeepsSome) (account : AccountId) :
    (db.configRetention account).KeepsSome := by
  unfold Db.configRetention
  split
  · rename_i c hc
    exact config c (List.mem_of_find?_eq_some hc)
  · exact ⟨by decide, by decide⟩

section Newest

variable {db : Db} {retention : Retention} {v f : VersionRow}

/-- The newest full is kept. -/
theorem newest_full_kept (keeps : retention.KeepsSome) (hfull : f.kind = .full)
    (newest : ∀ w ∈ db.gameRows account gameId, w.kind = .full → w.seq ≤ f.seq) :
    db.Kept account gameId retention (Db.gcVersion f) := by
  refine Or.inr (Or.inr (Or.inl ⟨by simp [Db.GcVersion.isFull, Db.gcVersion,
    Db.GcVersion.ofVersion, hfull], ?_⟩))
  have hnone : (db.gcVersions account gameId).countP
      (fun w => w.isFull ∧ (Db.gcVersion f).seq < w.seq) = 0 := by
    rw [List.countP_eq_zero]
    intro u hu hnewer
    obtain ⟨w, hw, rfl⟩ := Db.mem_gcVersions.mp hu
    obtain ⟨hwfull, hlt⟩ := of_decide_eq_true hnewer
    exact absurd (newest w hw (of_decide_eq_true hwfull)) (Nat.not_le.mpr hlt)
  rw [hnone]
  exact keeps.1

/-- **The newest version of a game is kept**, once the game has a full: it is that
full, or the newest differential behind it. -/
theorem gc_keeps_newest (keeps : retention.KeepsSome)
    (newest : ∀ w ∈ db.gameRows account gameId, w.seq ≤ v.seq)
    (hf : ∃ f ∈ db.gameRows account gameId, f.kind = .full) :
    db.Kept account gameId retention (Db.gcVersion v) := by
  cases hkind : v.kind with
  | full => exact newest_full_kept keeps hkind fun w hw _ => newest w hw
  | differential =>
      -- the newest full owns `v`, and nothing newer competes with either
      obtain ⟨f, hf, hfull, hmax⟩ : ∃ f ∈ db.gameRows account gameId,
          decide (f.kind = .full) = true ∧ ∀ w ∈ db.gameRows account gameId,
            decide (w.kind = .full) = true → w.seq ≤ f.seq := by
        refine exists_max ?_
        simpa using hf
      have hnear : Nearest Db.GcVersion.seq Db.GcVersion.isFull (db.gcVersions account gameId)
          (Db.gcVersion f) (Db.gcVersion v) := by
        refine ⟨Db.mem_gcVersions.mpr ⟨f, hf, rfl⟩, hfull, newest f hf, ?_⟩
        intro u hu hufull _
        obtain ⟨w, hw, rfl⟩ := Db.mem_gcVersions.mp hu
        exact hmax w hw hufull
      have hfulls : (db.gcVersions account gameId).countP
          (fun w => w.isFull ∧ (Db.gcVersion f).seq < w.seq) = 0 := by
        rw [List.countP_eq_zero]
        intro u hu hnewer
        obtain ⟨w, hw, rfl⟩ := Db.mem_gcVersions.mp hu
        obtain ⟨hwfull, hlt⟩ := of_decide_eq_true hnewer
        exact absurd (hmax w hw hwfull) (Nat.not_le.mpr hlt)
      have hdiffs : (db.gcVersions account gameId).countP (fun w =>
          w.isFull = false ∧ (Db.gcVersion v).seq < w.seq ∧
            Nearest Db.GcVersion.seq Db.GcVersion.isFull (db.gcVersions account gameId)
              (Db.gcVersion f) w) = 0 := by
        rw [List.countP_eq_zero]
        intro u hu hnewer
        obtain ⟨w, hw, rfl⟩ := Db.mem_gcVersions.mp hu
        exact absurd (newest w hw) (Nat.not_le.mpr (of_decide_eq_true hnewer).2.1)
      refine Or.inr (Or.inr (Or.inr ⟨?_, _, hnear, ?_, ?_⟩))
      · simp [Db.GcVersion.isFull, Db.gcVersion, Db.GcVersion.ofVersion, hkind]
      · rw [hfulls]
        exact keeps.1
      · rw [hdiffs]
        exact keeps.2

end Newest

/-! ### Sequence numbers -/

/-- The version an event stored for this game. -/
def ServerEvent.accepted (gameId : GameId) : ServerEvent → Option Version
  | .tx (.create c (.ok advance)) => if c.gameId = gameId then some advance.version else none
  | _ => none

/-- Every version the server ever accepted for a game, in the order of the run,
whatever retention did to it since. -/
def acceptedVersions (gameId : GameId) (trace : List ServerEvent) : List Version :=
  trace.filterMap (ServerEvent.accepted gameId)

/-- A change of the config goes through the settings form. -/
def ServerEvent.ConfigKeepsSome : ServerEvent → Prop
  | .config rows => ∀ c ∈ rows, c.retention.KeepsSome
  | _ => True

/-- One more event adds what it had accepted. -/
theorem acceptedVersions_snoc (trace : List ServerEvent) (event : ServerEvent) :
    acceptedVersions gameId (trace ++ [event]) =
      acceptedVersions gameId trace ++ (event.accepted gameId).toList := by
  rw [acceptedVersions, List.filterMap_append, acceptedVersions]
  refine congrArg _ ?_
  cases h : event.accepted gameId with
  | none => simp [h]
  | some v => simp [h]

/-- A transaction leaves the version rows alone, or it stores one more. -/
theorem TxStep.versions_cases {db db' : Db} {event : TxEvent} (step : TxStep db event db')
    (wf : db.WF) :
    db'.config = db.config ∧
      ((db'.versions = db.versions ∧
          ∀ gameId, (ServerEvent.tx event).accepted gameId = none) ∨
        ∃ row : VersionRow, db'.versions = db.versions ++ [row] ∧
          row.seq = db.nextSeq row.gameId ∧
          ∀ gameId, (ServerEvent.tx event).accepted gameId =
            if row.gameId = gameId then some row.toVersion else none) := by
  cases step with
  | create c fresh =>
      rcases Db.createVersion_cases wf c.account c.gameId c.now fresh.1 with
        ⟨e, -, heq⟩ | ⟨game, -, -, -, -, heq⟩
      · simp [Db.create, heq, ServerEvent.accepted]
      · rw [Db.create, heq]
        refine ⟨rfl, Or.inr ⟨db.newRow c.account c.gameId c.req c.id c.now, rfl, rfl, ?_⟩⟩
        intro gameId
        simp only [ServerEvent.accepted, Advance.version_ite]
        rfl
  | resolve c =>
      have hnone : ∀ reply gameId,
          (ServerEvent.tx (.resolve c reply)).accepted gameId = none := fun _ _ => rfl
      rcases Db.resolveConflict_cases wf.gameIds c.account c.gameId c.winner c.keepBoth c.id
        c.now with
        ⟨-, heq⟩ | ⟨game, -, -, heq⟩ | ⟨game, row, -, -, -, heq⟩
      · simp [Db.resolve, heq, hnone]
      · simp [Db.resolve, heq, hnone]
      · simp [Db.resolve, heq, hnone, Db.resolved]
  | recordBlob hash bytes now =>
      refine ⟨?_, Or.inl ⟨(Db.recordBlob_frame hash bytes).2.1, fun _ => rfl⟩⟩
      unfold Db.recordBlob
      split <;> rfl

/-- What carries the numbering over a run: every number ever given is at most that of
a stored version, and a game that was ever written has a full. -/
structure Numbered (gameId : GameId) (trace : List ServerEvent) (s : Server) : Prop where
  wf : s.db.WF
  config : ∀ c ∈ s.db.config, c.retention.KeepsSome
  below : ∀ u ∈ acceptedVersions gameId trace,
    ∃ v ∈ s.db.versions, v.gameId = gameId ∧ u.seq ≤ v.seq
  full : acceptedVersions gameId trace ≠ [] →
    ∃ f ∈ s.db.versions, f.gameId = gameId ∧ f.kind = .full
  increasing : (acceptedVersions gameId trace).Pairwise fun u v => u.seq < v.seq

/-- **Numbers start at one.** -/
theorem serverRun_seq_pos (fresh : s₀.db.Fresh) (run : Run ServerStep s₀ trace s) :
    ∀ v ∈ s.db.versions, 0 < v.seq := by
  have hinv : s.db.WF ∧ ∀ v ∈ s.db.versions, 0 < v.seq := by
    refine run.invariant (I := fun s => s.db.WF ∧ ∀ v ∈ s.db.versions, 0 < v.seq) ?_
      ⟨fresh.wf, by simp [fresh.noVersions]⟩
    rintro s event s' ⟨wf, hpos⟩ step
    refine ⟨step.wf wf, ?_⟩
    cases step with
    | config rows => exact hpos
    | gc =>
        intro v' hv'
        obtain ⟨v, hv, -, -, -, hseq⟩ := Server.of_mem_runGc wf hv'
        rw [hseq]
        exact hpos v hv
    | tx objects tx =>
        obtain ⟨-, ⟨hversions, -⟩ | ⟨row, hversions, hseq, -⟩⟩ := tx.versions_cases wf
        · rw [hversions]
          exact hpos
        · rw [hversions]
          intro v hv
          rcases List.mem_append.mp hv with hv | hv
          · exact hpos v hv
          · obtain rfl := List.mem_singleton.mp hv
            rw [hseq]
            exact Nat.succ_pos _
  exact hinv.2

/-- The versions of a game belong to one account. -/
theorem Db.WF.account_unique {db : Db} (wf : db.WF) {v w : VersionRow} (hv : v ∈ db.versions)
    (hw : w ∈ db.versions) (hgame : v.gameId = w.gameId) : v.accountId = w.accountId := by
  obtain ⟨g, hg, hgid, hgacc⟩ := wf.gameOwned v hv
  obtain ⟨g', hg', hgid', hgacc'⟩ := wf.gameOwned w hw
  obtain rfl := List.inj_on_of_nodup_map wf.gameIds hg hg' (by rw [hgid, hgid', hgame])
  exact hgacc.symm.trans hgacc'

/-- A retention run keeps the newest version and the newest full of the game. -/
theorem Numbered.gc (h : Numbered gameId trace s) :
    Numbered gameId (trace ++ [.gc]) s.runGc.1 := by
  obtain ⟨s', stats, dead, hrun, hpruned, -⟩ := Server.runGc_spec h.wf
  have haccepted : acceptedVersions gameId (trace ++ [ServerEvent.gc]) =
      acceptedVersions gameId trace := by
    rw [acceptedVersions_snoc]
    simp [ServerEvent.accepted]
  have hsurvives : ∀ v ∈ s.db.versions, s.db.Kept v.accountId v.gameId
      (s.db.configRetention v.accountId) (Db.gcVersion v) →
      ∃ v' ∈ s'.db.versions, v'.gameId = v.gameId ∧ v'.seq = v.seq ∧ v'.kind = v.kind := by
    intro v hv hkept
    have hsurv := Server.survives_runGc h.wf hv hkept
    rwa [hrun] at hsurv
  rw [hrun]
  refine ⟨hpruned.wf, hpruned.config ▸ h.config, ?_, ?_, haccepted ▸ h.increasing⟩
  · rw [haccepted]
    intro u hu
    obtain ⟨f, hf, hfg, hffull⟩ := h.full (List.ne_nil_of_mem hu)
    obtain ⟨v, hv, hvg, hle⟩ := h.below u hu
    -- the row below `u` may go, the newest row of the game does not
    obtain ⟨m, hm, hmg, hmax⟩ : ∃ m ∈ s.db.versions, decide (m.gameId = gameId) = true ∧
        ∀ w ∈ s.db.versions, decide (w.gameId = gameId) = true → w.seq ≤ m.seq := by
      refine exists_max ?_
      exact ⟨v, hv, by simpa using hvg⟩
    obtain rfl := of_decide_eq_true hmg
    have hkept : s.db.Kept m.accountId m.gameId (s.db.configRetention m.accountId)
        (Db.gcVersion m) := by
      refine gc_keeps_newest (Db.configRetention_keepsSome h.config m.accountId) ?_
        ⟨f, Db.mem_gameRows.mpr ⟨hf, hfg, h.wf.account_unique hf hm hfg⟩, hffull⟩
      intro w hw
      obtain ⟨hw, hwg, -⟩ := Db.mem_gameRows.mp hw
      exact hmax w hw (by simpa using hwg)
    obtain ⟨m', hm', hg', hseq', -⟩ := hsurvives m hm hkept
    refine ⟨m', hm', hg', hle.trans ?_⟩
    rw [hseq']
    exact hmax v hv (by simpa using hvg)
  · rw [haccepted]
    intro hne
    obtain ⟨f, hf, hfg, hffull⟩ := h.full hne
    obtain ⟨m, hm, hmp, hmax⟩ : ∃ m ∈ s.db.versions,
        decide (m.gameId = gameId ∧ m.kind = .full) = true ∧ ∀ w ∈ s.db.versions,
          decide (w.gameId = gameId ∧ w.kind = .full) = true → w.seq ≤ m.seq := by
      refine exists_max ?_
      exact ⟨f, hf, by simp [hfg, hffull]⟩
    obtain ⟨rfl, hmfull⟩ := of_decide_eq_true hmp
    have hkept : s.db.Kept m.accountId m.gameId (s.db.configRetention m.accountId)
        (Db.gcVersion m) := by
      refine newest_full_kept (Db.configRetention_keepsSome h.config m.accountId) hmfull ?_
      intro w hw hwfull
      obtain ⟨hw, hwg, -⟩ := Db.mem_gameRows.mp hw
      exact hmax w hw (by simp [hwg, hwfull])
    obtain ⟨m', hm', hg', -, hkind'⟩ := hsurvives m hm hkept
    exact ⟨m', hm', hg', hkind'.trans hmfull⟩

/-- A step that stores no version of any game. -/
theorem Numbered.same (h : Numbered gameId trace s) {event : ServerEvent} (wf : s'.db.WF)
    (config : ∀ c ∈ s'.db.config, c.retention.KeepsSome)
    (hversions : s'.db.versions = s.db.versions) (hnone : event.accepted gameId = none) :
    Numbered gameId (trace ++ [event]) s' := by
  have haccepted : acceptedVersions gameId (trace ++ [event]) = acceptedVersions gameId trace := by
    rw [acceptedVersions_snoc, hnone, Option.toList_none, List.append_nil]
  refine ⟨wf, config, ?_, ?_, haccepted ▸ h.increasing⟩
  · rw [haccepted, hversions]
    exact h.below
  · rw [haccepted, hversions]
    exact h.full

/-- A stored version gets a number above all before it. -/
theorem Numbered.stored (h : Numbered gameId trace s) {event : ServerEvent} {row : VersionRow}
    (wf : s'.db.WF) (config : ∀ c ∈ s'.db.config, c.retention.KeepsSome)
    (hversions : s'.db.versions = s.db.versions ++ [row])
    (hseq : row.seq = s.db.nextSeq row.gameId)
    (hsome : event.accepted gameId = if row.gameId = gameId then some row.toVersion else none)
    (first : ∀ v ∈ (acceptedVersions gameId (trace ++ [event])).head?, v.kind = .full) :
    Numbered gameId (trace ++ [event]) s' := by
  rw [acceptedVersions_snoc] at first
  by_cases hgame : row.gameId = gameId
  · rw [if_pos hgame] at hsome
    rw [hsome, Option.toList_some] at first
    have hold : ∀ v ∈ s.db.versions, v ∈ s'.db.versions := fun v hv =>
      hversions ▸ List.mem_append_left _ hv
    have hrow : row ∈ s'.db.versions := hversions ▸ List.mem_append_right _ (by simp)
    have hlt : ∀ u ∈ acceptedVersions gameId trace, u.seq < row.seq := by
      intro u hu
      obtain ⟨v, hv, hvg, hle⟩ := h.below u hu
      have hv := Db.seq_lt_nextSeq hv
      rw [hvg, ← hgame, ← hseq] at hv
      exact Nat.lt_of_le_of_lt hle hv
    refine ⟨wf, config, ?_, ?_, ?_⟩
    · rw [acceptedVersions_snoc, hsome]
      intro u hu
      rcases List.mem_append.mp hu with hu | hu
      · exact ⟨row, hrow, hgame, (hlt u hu).le⟩
      · obtain rfl : u = row.toVersion := by simpa using hu
        exact ⟨row, hrow, hgame, le_rfl⟩
    · -- the first version is the full the game starts with; after it, the old one stays
      intro _
      cases hbefore : acceptedVersions gameId trace with
      | nil =>
          rw [hbefore] at first
          exact ⟨row, hrow, hgame, first row.toVersion (by simp)⟩
      | cons u us =>
          obtain ⟨f, hf, hfg, hffull⟩ := h.full (by simp [hbefore])
          exact ⟨f, hold f hf, hfg, hffull⟩
    · rw [acceptedVersions_snoc, hsome, Option.toList_some, List.pairwise_append]
      exact ⟨h.increasing, by simp, fun u hu v hv => by
        obtain rfl := List.mem_singleton.mp hv
        exact hlt u hu⟩
  · rw [if_neg hgame] at hsome
    have haccepted : acceptedVersions gameId (trace ++ [event]) =
        acceptedVersions gameId trace := by
      rw [acceptedVersions_snoc, hsome, Option.toList_none, List.append_nil]
    refine ⟨wf, config, ?_, ?_, haccepted ▸ h.increasing⟩
    · rw [haccepted, hversions]
      intro u hu
      obtain ⟨v, hv, hle⟩ := h.below u hu
      exact ⟨v, List.mem_append_left _ hv, hle⟩
    · rw [haccepted, hversions]
      intro hne
      obtain ⟨f, hf, hfull⟩ := h.full hne
      exact ⟨f, List.mem_append_left _ hf, hfull⟩

/-- The accepted versions stay numbered as they came. -/
theorem Numbered.step (h : Numbered gameId trace s) {event : ServerEvent}
    (step : ServerStep s event s') (config : event.ConfigKeepsSome)
    (first : ∀ v ∈ (acceptedVersions gameId (trace ++ [event])).head?, v.kind = .full) :
    Numbered gameId (trace ++ [event]) s' := by
  have wf' := step.wf h.wf
  cases step with
  | gc => exact h.gc
  | config rows => exact h.same wf' config rfl rfl
  | tx objects tx =>
      obtain ⟨hconfig, ⟨hversions, hnone⟩ | ⟨row, hversions, hseq, hsome⟩⟩ :=
        tx.versions_cases h.wf
      · exact h.same wf' (hconfig ▸ h.config) hversions (hnone gameId)
      · exact h.stored wf' (hconfig ▸ h.config) hversions hseq (hsome gameId) first

/-- What is first stays first. -/
theorem head?_acceptedVersions_snoc (trace : List ServerEvent) (event : ServerEvent) :
    ∀ v ∈ (acceptedVersions gameId trace).head?,
      v ∈ (acceptedVersions gameId (trace ++ [event])).head? := by
  intro v hv
  rw [acceptedVersions_snoc]
  cases h : acceptedVersions gameId trace with
  | nil =>
      rw [h] at hv
      cases hv
  | cons u us =>
      rw [h] at hv
      exact hv

/-- **Sequence numbers are never reused.**  In every run from an empty database,
with retention values as the settings form allows them before and after every
change, and for every game whose first version is a full: each version the server
accepts for the game gets a `seq` greater than all that were ever given to it,
pruned versions included. -/
theorem seq_never_reused (fresh : s₀.db.Fresh)
    (config : ∀ c ∈ s₀.db.config, c.retention.KeepsSome) (run : Run ServerStep s₀ trace s)
    (changes : ∀ event ∈ trace, event.ConfigKeepsSome) (gameId : GameId)
    (first : ∀ v ∈ (acceptedVersions gameId trace).head?, v.kind = .full) :
    (acceptedVersions gameId trace).Pairwise fun u v => u.seq < v.seq := by
  have numbered := run.invariant_trace (I := fun tr t =>
    (∀ event ∈ tr, event.ConfigKeepsSome) →
      (∀ v ∈ (acceptedVersions gameId tr).head?, v.kind = .full) → Numbered gameId tr t) ?_ ?_
  · exact (numbered changes first).increasing
  · intro tr t event t' ih step changes first
    have h := ih (fun e he => changes e (List.mem_append_left _ he))
      fun v hv => first v (head?_acceptedVersions_snoc tr event v hv)
    exact h.step step (changes event (by simp)) first
  · exact fun _ _ => ⟨fresh.wf, config, by simp [acceptedVersions], by simp [acceptedVersions],
      by simp [acceptedVersions]⟩

/-- A fourth backup, on the head that a retention run has left. -/
def backupAfterGc : CreateCall :=
  { chainedBackup 3 with
    req := { (chainedBackup 3).req with parent := some 103 }
    id := 104 }

/-- The four backups and the retention run before the last of them. -/
def gcBetweenBackups : List ServerEvent :=
  [.tx (.create (chainedBackup 1) ((afterBackups 0).db.create (chainedBackup 1)).2),
   .tx (.create (chainedBackup 2) ((afterBackups 1).db.create (chainedBackup 2)).2),
   .tx (.create (chainedBackup 3) ((afterBackups 2).db.create (chainedBackup 3)).2),
   .gc,
   .tx (.create backupAfterGc ((afterBackups 3).runGc.1.db.create backupAfterGc).2)]

/-- The second of the four is pruned before the last is stored; the numbers go on. -/
theorem seq_grows_across_gc :
    (acceptedVersions 10 gcBetweenBackups).length = 4 ∧
      (acceptedVersions 10 gcBetweenBackups).Pairwise fun u v => u.seq < v.seq := by
  have run : Run ServerStep smallRetentionServer gcBetweenBackups
      { (afterBackups 3).runGc.1 with
        db := ((afterBackups 3).runGc.1.db.create backupAfterGc).1 } :=
    ((((afterBackups_step 0 ⟨by decide, by decide⟩).trans
      (afterBackups_step 1 ⟨by decide, by decide⟩)).trans
      (afterBackups_step 2 ⟨by decide, by decide⟩)).trans (Run.single ServerStep.gc)).trans
      (Run.single (ServerStep.tx _ (TxStep.create _ ⟨by decide, by decide⟩)))
  refine ⟨by decide, seq_never_reused smallRetentionServer_fresh ?_ run ?_ 10 ?_⟩
  · intro c hc
    obtain rfl := List.mem_singleton.mp hc
    exact ⟨by decide, by decide⟩
  · simp [gcBetweenBackups, ServerEvent.ConfigKeepsSome]
  · have hfull : ∀ v ∈ (acceptedVersions 10 gcBetweenBackups).head?.toList, v.kind = .full := by
      decide
    exact fun v hv => hfull v (by simpa using hv)

end Savr
