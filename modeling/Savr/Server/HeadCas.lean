import Savr.Lib.Run
import Savr.Server.Invariant

/-!
# Head compare-and-swap and additive history

Runs of `create_version` and `resolve_conflict` transactions, in any order and
from any number of devices, against one database.  SQLite serialises the
transactions, so a run is a list of calls, each with the reply it got.

`head_cas_and_additive_history` is the result: which replies the calls get, how
often a head can be fast-forwarded from the same parent, and that no stored
version is lost or changed.
-/

namespace Savr

open LabelledRun

/-- A call of `create_version`, with the id and time the server draws for it. -/
structure CreateCall where
  account : AccountId
  gameId : GameId
  req : CreateVersion
  id : VersionId
  now : Timestamp
  deriving DecidableEq, Repr

/-- A call of `resolve_conflict`, with what the server draws for it. -/
structure ResolveCall where
  account : AccountId
  gameId : GameId
  winner : VersionId
  keepBoth : Bool
  id : Uuid
  now : Timestamp
  deriving DecidableEq, Repr

/-- `create_version`, for a call. -/
def Db.create (db : Db) (c : CreateCall) : Db × Except ApiError Advance :=
  db.createVersion c.account c.gameId c.req c.id c.now

/-- `resolve_conflict`, for a call. -/
def Db.resolve (db : Db) (c : ResolveCall) : Db × Except ApiError (HeadResponse × ℕ) :=
  db.resolveConflict c.account c.gameId c.winner c.keepBoth c.id c.now

/-- The id drawn for a call is new: no version has it and the request does not
name it. -/
def CreateCall.Fresh (c : CreateCall) (db : Db) : Prop :=
  c.req.parent ≠ some c.id ∧ ∀ v ∈ db.versions, v.id ≠ c.id

/-- A transaction as it happened: the call and its reply. -/
inductive TxEvent
  | create (call : CreateCall) (reply : Except ApiError Advance)
  | resolve (call : ResolveCall) (reply : Except ApiError (HeadResponse × ℕ))
  | recordBlob (hash : Blake3Hash) (bytes : ℕ)

/-- One serialised transaction. -/
inductive TxStep : Db → TxEvent → Db → Prop
  | create {db : Db} (c : CreateCall) (fresh : c.Fresh db) :
      TxStep db (.create c (db.create c).2) (db.create c).1
  | resolve {db : Db} (c : ResolveCall) :
      TxStep db (.resolve c (db.resolve c).2) (db.resolve c).1
  | recordBlob {db : Db} (hash : Blake3Hash) (bytes : ℕ) (now : Timestamp) :
      TxStep db (.recordBlob hash bytes) (db.recordBlob hash bytes now)

namespace TxEvent

/-- The event is an upload of this game that fast-forwarded the head from `p`. -/
def fastForwardFrom (account : AccountId) (gameId : GameId) (p : Option VersionId) :
    TxEvent → Bool
  | create c (.ok (.fastForward _)) =>
      c.account = account ∧ c.gameId = gameId ∧ c.req.parent = p
  | _ => false

/-- The event is a successful resolution of this game whose winner is `p`. -/
def resolvesTo (account : AccountId) (gameId : GameId) (p : Option VersionId) :
    TxEvent → Bool
  | resolve c (.ok _) => c.account = account ∧ c.gameId = gameId ∧ some c.winner = p
  | _ => false

/-- The event is a committed upload of this game that declared the parent `p`. -/
def uploadFrom (account : AccountId) (gameId : GameId) (p : Option VersionId) :
    TxEvent → Bool
  | create c (.ok _) => c.account = account ∧ c.gameId = gameId ∧ c.req.parent = p
  | _ => false

/-- The transaction is a resolution. -/
def isResolve : TxEvent → Bool
  | resolve _ _ => true
  | _ => false

end TxEvent

/-! ### One transaction -/

variable {db db' db₀ : Db} {ev : TxEvent} {trace : List TxEvent}
  {account : AccountId} {gameId : GameId}

/-- The invariant is kept by every transaction. -/
theorem TxStep.wf (h : TxStep db ev db') (wf : db.WF) : db'.WF := by
  cases h with
  | create c fresh =>
      rcases Db.createVersion_cases wf c.account c.gameId c.now fresh.1 with
        ⟨e, -, heq⟩ | ⟨game, -, wf', -, -, heq⟩
      · simpa [Db.create, heq] using wf
      · simpa [Db.create, heq] using wf'
  | resolve c =>
      rcases Db.resolveConflict_cases wf.gameIds c.account c.gameId c.winner c.keepBoth c.id
        c.now with
        ⟨-, heq⟩ | ⟨game, -, -, heq⟩ | ⟨game, row, hrow, -, hid, heq⟩
      · simpa [Db.resolve, heq] using wf
      · simpa [Db.resolve, heq] using wf
      · rw [Db.resolve, heq, ← hid]
        exact wf.resolved hrow game.head
  | recordBlob hash bytes now => exact wf.recordBlob hash bytes

/-- No transaction removes or changes a version row. -/
theorem TxStep.versions_subset (h : TxStep db ev db') (wf : db.WF) :
    ∀ v ∈ db.versions, v ∈ db'.versions := by
  intro v hv
  cases h with
  | create c fresh =>
      rcases Db.createVersion_cases wf c.account c.gameId c.now fresh.1 with
        ⟨e, -, heq⟩ | ⟨game, -, -, -, -, heq⟩
      · simpa [Db.create, heq] using hv
      · simp only [Db.create, heq]
        exact List.mem_append_left _ hv
  | resolve c =>
      rcases Db.resolveConflict_cases wf.gameIds c.account c.gameId c.winner c.keepBoth c.id
        c.now with
        ⟨-, heq⟩ | ⟨game, -, -, heq⟩ | ⟨game, row, -, -, -, heq⟩
      · simpa [Db.resolve, heq] using hv
      · simpa [Db.resolve, heq] using hv
      · simpa [Db.resolve, heq, Db.resolved] using hv
  | recordBlob hash bytes now =>
      rw [(Db.recordBlob_frame hash bytes).2.1]
      exact hv

theorem Db.listVersions_mono (hsub : ∀ v ∈ db.versions, v ∈ db'.versions) :
    ∀ v ∈ db.listVersions account gameId, v ∈ db'.listVersions account gameId := by
  intro v hv
  obtain ⟨row, hrow, hg, ha, rfl⟩ := Db.mem_listVersions.mp hv
  exact Db.mem_listVersions.mpr ⟨row, hsub row hrow, hg, ha, rfl⟩

/-- `p` names nothing, or a version that is stored. -/
def Known (db : Db) (p : Option VersionId) : Prop :=
  p = none ∨ ∃ v ∈ db.versions, some v.id = p

theorem Known.mono {p : Option VersionId} (h : Known db p)
    (hsub : ∀ v ∈ db.versions, v ∈ db'.versions) : Known db' p := by
  rcases h with rfl | ⟨v, hv, rfl⟩
  · exact Or.inl rfl
  · exact Or.inr ⟨v, hsub v hv, rfl⟩

theorem Db.WF.known_head (wf : db.WF) : Known db (db.head account gameId) := by
  cases hhead : db.head account gameId with
  | none => exact Or.inl rfl
  | some h =>
      obtain ⟨v, hv, rfl, -⟩ := wf.exists_headVersion hhead
      exact Or.inr ⟨v, (Db.mem_gameRows.mp hv).1, rfl⟩

/-- **How one transaction moves a head.**  It is left where it is, or an upload
fast-forwards it from its declared parent to a version not stored before, or a
resolution sets it to its winner. -/
theorem TxStep.head_cases (h : TxStep db ev db') (wf : db.WF) (account : AccountId)
    (gameId : GameId) :
    (db'.head account gameId = db.head account gameId ∧
      ∀ p, ev.fastForwardFrom account gameId p = false ∧
        (ev.uploadFrom account gameId p = true → p ≠ db.head account gameId)) ∨
    (∃ id, db'.head account gameId = some id ∧ ¬ Known db (some id) ∧
      (∃ v ∈ db'.versions, v.id = id) ∧
      ∀ p, (ev.fastForwardFrom account gameId p = true ↔ p = db.head account gameId) ∧
        (ev.uploadFrom account gameId p = true → p = db.head account gameId)) ∨
    (∃ winner, db'.head account gameId = some winner ∧
      ev.resolvesTo account gameId (some winner) = true ∧ ev.isResolve = true ∧
      ∀ p, ev.fastForwardFrom account gameId p = false) := by
  cases h with
  | create c fresh =>
      rcases Db.createVersion_cases wf c.account c.gameId c.now fresh.1 with
        ⟨e, -, heq⟩ | ⟨game, hgame, -, hid, -, heq⟩
      · exact Or.inl ⟨by simp [Db.create, heq],
          fun p => by simp [Db.create, heq, TxEvent.fastForwardFrom, TxEvent.uploadFrom]⟩
      · by_cases hsame : (account, gameId) = (c.account, c.gameId)
        · obtain ⟨rfl, rfl⟩ := Prod.mk.inj hsame
          have hhead := Db.head_created hgame c.req c.id c.now
          -- the guard of the `UPDATE games ... WHERE head IS ?`
          by_cases hp : db.head c.account c.gameId = c.req.parent
          · refine Or.inr (Or.inl ⟨c.id, ?_, ?_, ?_, ?_⟩)
            · simpa [Db.create, heq, hp] using hhead
            · rintro (hnone | ⟨v, hv, hvid⟩)
              · cases hnone
              · exact hid v hv (Option.some.inj hvid)
            · refine ⟨db.newRow c.account c.gameId c.req c.id c.now, ?_, rfl⟩
              simp [Db.create, heq, Db.created]
            · intro p
              simp [Db.create, heq, hp, TxEvent.fastForwardFrom, TxEvent.uploadFrom, eq_comm]
          · refine Or.inl ⟨by simpa [Db.create, heq, hp] using hhead, fun p => ?_⟩
            refine ⟨by simp [Db.create, heq, hp, TxEvent.fastForwardFrom], ?_⟩
            intro hup hpe
            have hpar : c.req.parent = p := by
              simpa [Db.create, heq, hp, TxEvent.uploadFrom] using hup
            exact hp (hpe ▸ hpar.symm ▸ rfl)
        -- an upload of another game
        · have hhead := Db.head_created_of_ne db hsame c.req c.id c.now
          refine Or.inl ⟨by simpa [Db.create, heq] using hhead, fun p => ?_⟩
          have hoff : ∀ q : Prop, ¬ (c.account = account ∧ c.gameId = gameId ∧ q) :=
            fun q hq => hsame (Prod.ext hq.1.symm hq.2.1.symm)
          by_cases hp : db.head c.account c.gameId = c.req.parent
          · simp [Db.create, heq, hp, TxEvent.fastForwardFrom, TxEvent.uploadFrom, hoff]
          · simp [Db.create, heq, hp, TxEvent.fastForwardFrom, TxEvent.uploadFrom, hoff]
  | resolve c =>
      have hff : ∀ reply p,
          (TxEvent.resolve c reply).fastForwardFrom account gameId p = false := by
        intro reply p
        cases reply <;> rfl
      have hup : ∀ reply p, (TxEvent.resolve c reply).uploadFrom account gameId p = false := by
        intro reply p
        cases reply <;> rfl
      rcases Db.resolveConflict_cases wf.gameIds c.account c.gameId c.winner c.keepBoth c.id
        c.now with
        ⟨-, heq⟩ | ⟨game, -, -, heq⟩ | ⟨game, row, -, hgame, -, heq⟩
      · exact Or.inl ⟨by simp [Db.resolve, heq], fun p => ⟨hff _ p, by simp [hup]⟩⟩
      · exact Or.inl ⟨by simp [Db.resolve, heq], fun p => ⟨hff _ p, by simp [hup]⟩⟩
      · by_cases hsame : (account, gameId) = (c.account, c.gameId)
        · obtain ⟨rfl, rfl⟩ := Prod.mk.inj hsame
          refine Or.inr (Or.inr ⟨c.winner, ?_, ?_, rfl, hff _⟩)
          · simpa [Db.resolve, heq] using Db.head_resolved hgame
          · simp [Db.resolve, heq, TxEvent.resolvesTo]
        · refine Or.inl ⟨?_, fun p => ⟨hff _ p, by simp [hup]⟩⟩
          simpa [Db.resolve, heq] using Db.head_resolved_of_ne db hsame
  | recordBlob hash bytes now =>
      exact Or.inl ⟨Db.head_recordBlob hash bytes, fun p => ⟨rfl, by simp [TxEvent.uploadFrom]⟩⟩

/-! ### Runs -/

theorem txRun_wf (run : Run TxStep db trace db') (wf : db.WF) : db'.WF :=
  run.invariant (fun _ _ _ wf step => step.wf wf) wf

theorem txRun_versions_subset (run : Run TxStep db trace db') (wf : db.WF) :
    ∀ v ∈ db.versions, v ∈ db'.versions := by
  refine (run.invariant (I := fun d => d.WF ∧ ∀ v ∈ db.versions, v ∈ d.versions)
    (fun s l t hs step => ⟨step.wf hs.1, fun v hv => ?_⟩) ⟨wf, fun _ h => h⟩).2
  exact step.versions_subset hs.1 v (hs.2 v hv)

open scoped Classical in
/-- **The head budget.**  Being at `p` now and having been fast-forwarded away
from `p` are both paid for: once by the birth of `p`, and once by each resolution
that chose `p`. -/
theorem fastForward_budget (fresh : db₀.Fresh) (run : Run TxStep db₀ trace db)
    (account : AccountId) (gameId : GameId) (p : Option VersionId) :
    trace.countP (TxEvent.fastForwardFrom account gameId p) +
        (if db.head account gameId = p then 1 else 0) ≤
      trace.countP (TxEvent.resolvesTo account gameId p) +
        (if Known db p then 1 else 0) := by
  refine (run.invariant_trace (I := fun tr d => d.WF ∧
      tr.countP (TxEvent.fastForwardFrom account gameId p) +
          (if d.head account gameId = p then 1 else 0) ≤
        tr.countP (TxEvent.resolvesTo account gameId p) +
          (if Known d p then 1 else 0)) ?_ ⟨fresh.wf, ?_⟩).2
  · intro tr d l d' hd step
    refine ⟨step.wf hd.1, ?_⟩
    have hbudget := hd.2
    have hsub := step.versions_subset hd.1
    have hmono : (if Known d p then 1 else 0) ≤ (if Known d' p then (1 : ℕ) else 0) := by
      by_cases hk : Known d p
      · simp [hk, hk.mono hsub]
      · simp [hk]
    have hknown : d.head account gameId = p → Known d p := fun h => h ▸ hd.1.known_head
    rw [List.countP_append, List.countP_append, List.countP_singleton, List.countP_singleton]
    rcases step.head_cases hd.1 account gameId with
      ⟨hhead, hev⟩ | ⟨id, hhead, hnew, ⟨v, hv, rfl⟩, hev⟩ | ⟨w, hhead, hres, -, hev⟩
    · rw [hhead, (hev p).1]
      simp only [Bool.false_eq_true, if_false]
      omega
    · by_cases hp : p = d.head account gameId
      · -- the budget moves from "being at `p`" to "having left `p`"
        have hff := (hev p).1.mpr hp
        have hne : ¬ (some v.id = p) := fun h => hnew (h ▸ hknown hp.symm)
        rw [hhead, if_pos hff, if_neg hne]
        rw [if_pos hp.symm] at hbudget
        omega
      · have hff : TxEvent.fastForwardFrom account gameId p l = false := by
          cases hcase : TxEvent.fastForwardFrom account gameId p l with
          | false => rfl
          | true => exact absurd ((hev p).1.mp hcase) hp
        rw [hhead, hff]
        rw [if_neg (fun h => hp h.symm)] at hbudget
        simp only [Bool.false_eq_true, if_false]
        by_cases hid : some v.id = p
        · -- `p` is born in this step
          subst hid
          have hborn : Known d' (some v.id) := Or.inr ⟨v, hv, rfl⟩
          rw [if_neg hnew] at hbudget
          rw [if_pos rfl, if_pos hborn]
          omega
        · rw [if_neg hid]
          omega
    · rw [hhead, hev p]
      simp only [Bool.false_eq_true, if_false]
      by_cases hw : some w = p
      · subst hw
        rw [if_pos rfl, if_pos hres]
        split_ifs at hbudget <;> omega
      · rw [if_neg hw]
        split_ifs at hbudget <;> omega
  · rw [fresh.head_none]
    by_cases hp : p = none
    · subst hp
      simp [Known]
    · simp [Ne.symm hp]

/-- **A race from one head has one winner.**  Without resolutions, from a state
whose head is `p`: if at least one committed upload declared `p`, exactly one
fast-forwarded from it. -/
theorem race_exactly_one (wf : db.WF) (run : Run TxStep db trace db')
    (hcreate : ∀ ev ∈ trace, ev.isResolve = false)
    (hup : ∃ ev ∈ trace, ev.uploadFrom account gameId (db.head account gameId) = true) :
    trace.countP (TxEvent.fastForwardFrom account gameId (db.head account gameId)) = 1 := by
  generalize hp : db.head account gameId = p at hup ⊢
  -- either nothing has left `p` yet, or exactly one upload has and `p` is gone for good
  have hinv : trace.countP (TxEvent.fastForwardFrom account gameId p) = 0 ∧
        db'.head account gameId = p ∧
        (∀ ev ∈ trace, ev.uploadFrom account gameId p = false) ∨
      trace.countP (TxEvent.fastForwardFrom account gameId p) = 1 ∧
        db'.head account gameId ≠ p := by
    have hgen := run.invariant_trace (I := fun tr d =>
      (∀ ev ∈ tr, ev.isResolve = false) → d.WF ∧ Known d p ∧
        (tr.countP (TxEvent.fastForwardFrom account gameId p) = 0 ∧
            d.head account gameId = p ∧
            (∀ ev ∈ tr, ev.uploadFrom account gameId p = false) ∨
          tr.countP (TxEvent.fastForwardFrom account gameId p) = 1 ∧
            d.head account gameId ≠ p)) ?_ ?_
    · exact (hgen hcreate).2.2
    · intro tr d l d' hd step hall
      obtain ⟨hwf, hknown, hcase⟩ := hd fun ev hev => hall ev (List.mem_append_left _ hev)
      have hl : l.isResolve = false := hall l (by simp)
      refine ⟨step.wf hwf, hknown.mono (step.versions_subset hwf), ?_⟩
      rw [List.countP_append, List.countP_singleton]
      rcases step.head_cases hwf account gameId with
        ⟨hhead, hev⟩ | ⟨id, hhead, hnew, -, hev⟩ | ⟨w, -, -, hnot, -⟩
      · rw [hhead, (hev p).1]
        rcases hcase with ⟨hzero, hat, hnone⟩ | ⟨hone, hoff⟩
        · refine Or.inl ⟨by simpa using hzero, hat, fun ev hmem => ?_⟩
          rcases List.mem_append.mp hmem with hmem | hmem
          · exact hnone ev hmem
          · obtain rfl := List.mem_singleton.mp hmem
            cases hu : TxEvent.uploadFrom account gameId p ev with
            | false => rfl
            | true => exact absurd hat.symm ((hev p).2 hu)
        · exact Or.inr ⟨by simpa using hone, hoff⟩
      · have hid : some id ≠ p := fun h => hnew (h ▸ hknown)
        refine Or.inr ⟨?_, by rw [hhead]; exact hid⟩
        rcases hcase with ⟨hzero, hat, -⟩ | ⟨hone, hoff⟩
        · rw [hzero, if_pos ((hev p).1.mpr hat.symm)]
        · have hff : ¬ TxEvent.fastForwardFrom account gameId p l = true := fun h =>
            hoff ((hev p).1.mp h).symm
          rw [hone, if_neg hff]
      · rw [hl] at hnot
        cases hnot
    · exact fun _ => ⟨wf, hp ▸ wf.known_head, Or.inl ⟨rfl, hp, by simp⟩⟩
  rcases hinv with ⟨-, -, hnone⟩ | ⟨hone, -⟩
  · obtain ⟨ev, hmem, hev⟩ := hup
    rw [hnone ev hmem] at hev
    cases hev
  · exact hone

/-- **One committed upload.**  The reply says whether the declared parent was the
head; the head moves to the new version or stays, and the version is listed with
everything the request said. -/
theorem create_committed (wf : db.WF) {c : CreateCall} (fresh : c.Fresh db)
    (hcommit : ∃ r, db.createVersionTx c.account c.gameId c.req c.id c.now = .ok r) :
    ∃ v ∈ (db.create c).1.listVersions c.account c.gameId,
      v.id = c.id ∧ v.request = c.req ∧
      (db.head c.account c.gameId = c.req.parent ∧
          (db.create c).2 = .ok (.fastForward v) ∧
          (db.create c).1.head c.account c.gameId = some v.id ∨
        db.head c.account c.gameId ≠ c.req.parent ∧
          (db.create c).2 = .ok (.conflict (db.headVersion c.account c.gameId) v) ∧
          (db.headVersion c.account c.gameId).map Version.id = db.head c.account c.gameId ∧
          (db.create c).1.head c.account c.gameId = db.head c.account c.gameId) := by
  rcases Db.createVersion_cases wf c.account c.gameId c.now fresh.1 with
        ⟨e, herr, -⟩ | ⟨game, hgame, -, -, -, heq⟩
  · obtain ⟨r, hr⟩ := hcommit
    rw [herr] at hr
    cases hr
  · have hhead := Db.head_created hgame c.req c.id c.now
    rw [Db.create, heq]
    refine ⟨(db.newRow c.account c.gameId c.req c.id c.now).toVersion, ?_, rfl, rfl, ?_⟩
    · exact Db.mem_listVersions.mpr ⟨_, by simp [Db.created], rfl, rfl, rfl⟩
    · by_cases hp : db.head c.account c.gameId = c.req.parent
      · exact Or.inl ⟨hp, by rw [if_pos hp], by rw [hhead, if_pos hp]; rfl⟩
      · refine Or.inr ⟨hp, by rw [if_neg hp], ?_, by rw [hhead, if_neg hp]⟩
        cases hcur : db.head c.account c.gameId with
        | none => simp [Db.headVersion, hcur]
        | some h =>
            obtain ⟨v, -, rfl, hhv⟩ := wf.exists_headVersion hcur
            rw [hhv]
            rfl

/-- **Head compare-and-swap and additive history.**  In every state reached by any
order of transactions from a database without versions:

* an upload that commits fast-forwards exactly when its parent is the head, and
  is otherwise stored beside the unchanged head it reports;
* the fast-forwards from a parent `p` number at most one more than the
  resolutions that chose `p`, and uploads racing from the current head have
  exactly one winner;
* whatever is listed stays listed, unchanged, and no `seq` is given twice. -/
theorem head_cas_and_additive_history (fresh : db₀.Fresh) (run : Run TxStep db₀ trace db) :
    (∀ c : CreateCall, c.Fresh db →
      (∃ r, db.createVersionTx c.account c.gameId c.req c.id c.now = .ok r) →
      ∃ v ∈ (db.create c).1.listVersions c.account c.gameId,
        v.id = c.id ∧ v.request = c.req ∧
        (db.head c.account c.gameId = c.req.parent ∧
            (db.create c).2 = .ok (.fastForward v) ∧
            (db.create c).1.head c.account c.gameId = some v.id ∨
          db.head c.account c.gameId ≠ c.req.parent ∧
            (db.create c).2 = .ok (.conflict (db.headVersion c.account c.gameId) v) ∧
            (db.headVersion c.account c.gameId).map Version.id =
              db.head c.account c.gameId ∧
            (db.create c).1.head c.account c.gameId = db.head c.account c.gameId)) ∧
    (∀ account gameId p,
      trace.countP (TxEvent.fastForwardFrom account gameId p) ≤
        1 + trace.countP (TxEvent.resolvesTo account gameId p)) ∧
    (∀ account gameId, trace.countP (TxEvent.fastForwardFrom account gameId none) ≤ 1) ∧
    (∀ account gameId trace' db', Run TxStep db trace' db' →
      (∀ ev ∈ trace', ev.isResolve = false) →
      (∃ ev ∈ trace', ev.uploadFrom account gameId (db.head account gameId) = true) →
      trace'.countP (TxEvent.fastForwardFrom account gameId (db.head account gameId)) = 1) ∧
    (∀ account gameId trace' db', Run TxStep db trace' db' →
      ∀ v ∈ db.listVersions account gameId, v ∈ db'.listVersions account gameId) ∧
    (∀ v ∈ db.versions, ∀ w ∈ db.versions, v.gameId = w.gameId → v.seq = w.seq → v = w) ∧
    ∀ account gameId, (db.listVersions account gameId).Pairwise fun v w => w.seq < v.seq := by
  have wf := txRun_wf run fresh.wf
  have hbudget : ∀ account gameId p,
      trace.countP (TxEvent.fastForwardFrom account gameId p) ≤
        1 + trace.countP (TxEvent.resolvesTo account gameId p) := by
    intro account gameId p
    have hb := fastForward_budget fresh run account gameId p
    split_ifs at hb <;> omega
  refine ⟨fun c hc hcommit => create_committed wf hc hcommit, hbudget, ?_, ?_, ?_,
    wf.seqUnique, wf.listVersions_pairwise⟩
  · intro account gameId
    -- a resolution always names a winner, so nothing resolves back to "no head"
    have hnone : trace.countP (TxEvent.resolvesTo account gameId none) = 0 := by
      rw [List.countP_eq_zero]
      intro ev _
      unfold TxEvent.resolvesTo
      split <;> simp
    have hb := hbudget account gameId none
    omega
  · intro account gameId trace' db' run' hres hup
    exact race_exactly_one wf run' hres hup
  · intro account gameId trace' db' run'
    exact Db.listVersions_mono (txRun_versions_subset run' wf)

/-- One account with one game, two devices and an uploaded blob, from which the examples start. -/
def twoDeviceDb : Db where
  accounts := [1]
  devices :=
    [⟨21, 1, "pc21", .linux, "", none, false⟩, ⟨22, 1, "pc22", .linux, "", none, false⟩]
  blobs := [⟨⟨[7]⟩, 100, 0, 0⟩]
  games := [⟨10, 1, "Game", none, none⟩]
  versions := []
  config := []
  resolvedConflicts := []

/-- The first backup of a device: a full version without a parent. -/
def firstBackup (device : DeviceId) (id : VersionId) : CreateCall where
  account := 1
  gameId := 10
  req := { parent := none, kind := .full, files := [], blobHash := ⟨[7]⟩, bytes := 100,
           deviceId := device }
  id := id
  now := 0

/-- Both devices back up for the first time: the race has one winner. -/
theorem head_cas_first_backups :
    let db₁ := (twoDeviceDb.create (firstBackup 21 101)).1
    let trace := [TxEvent.create (firstBackup 21 101) (twoDeviceDb.create (firstBackup 21 101)).2,
      TxEvent.create (firstBackup 22 102) (db₁.create (firstBackup 22 102)).2]
    trace.countP (TxEvent.uploadFrom 1 10 none) = 2 ∧
      trace.countP (TxEvent.fastForwardFrom 1 10 none) = 1 := by
  intro db₁ trace
  have fresh : twoDeviceDb.Fresh :=
    ⟨by decide, by decide, by decide, by decide, rfl, by decide, by decide⟩
  have run : Run TxStep twoDeviceDb trace (db₁.create (firstBackup 22 102)).1 :=
    Run.trans (Run.single (TxStep.create _ ⟨by decide, by decide⟩))
      (Run.single (TxStep.create _ ⟨by decide, by decide⟩))
  refine ⟨by decide, ?_⟩
  have race := (head_cas_and_additive_history fresh Run.nil).2.2.2.1 1 10 trace _ run
  exact race (by simp [trace, TxEvent.isResolve]) ⟨trace.head (by simp [trace]), by simp [trace],
    by decide⟩

end Savr
