import Savr.Core.PlainDigest
import Savr.Daemon.Engine
import Savr.Lib.Run
import Savr.Server.ApiSpec

/-!
# Conflicts between devices

The engines of any number of devices, the server, and the pushes on their way.  An
upload that diverged is answered with both tips; the same tips are pushed to every
device of the account.  A device that has recorded a conflict may resolve it at any
later time, while other devices go on uploading and resolving.

Two questions about this system:

* *Which head does a resolution replace?*  The server compares the head with the one
  it has just read itself, so the comparison never fails
  (`resolve_replaces_shown_iff`).
* *Which tip is mine?*  The reply is about the device's own upload; the push names
  the tips in the order head, incoming, for every device alike
  (`recorded_roles_agree_iff`).
-/

namespace Savr

open LabelledRun

/-- A server with the engines of its devices. -/
structure ConflictWorld where
  server : Server
  engines : ℕ → Engine
  /-- Every message the server has pushed so far. -/
  pushes : List Broadcast

/-- What happens next: a request of a device, whose reply may be lost, or a push that
arrives. Pushes may arrive late, in any order, or never. -/
inductive ConflictEvent
  | blobPut (hash : Blake3Hash) (body : Archive) (now : Timestamp)
  /-- An upload of a device; `answered` if its reply comes back to `run_backup`. -/
  | create (d : ℕ) (gameId : GameId) (req : CreateVersion) (id : VersionId) (now : Timestamp)
      (answered : Bool)
  /-- A push arrives. -/
  | deliver (d : ℕ) (b : Broadcast)
  | resolve (d : ℕ) (gameId : GameId) (choice : ResolveChoice) (id : Uuid) (now : Timestamp)
      (answered : Bool)

section General

variable [Blake3]

namespace ConflictWorld

/-- One engine has moved. -/
def setEngine (w : ConflictWorld) (d : ℕ) (e : Engine) : ConflictWorld :=
  { w with engines := Function.update w.engines d e }

/-- An upload: the reply goes to the device that sent it, the pushes out. -/
def create (w : ConflictWorld) (d : ℕ) (gameId : GameId) (req : CreateVersion) (id : VersionId)
    (now : Timestamp) (answered : Bool) : ConflictWorld :=
  let (s', reply, pushes) := w.server.createVersion (w.engines d).auth gameId req id now
  { server := s'
    engines := Function.update w.engines d
      (if answered then (w.engines d).onReply gameId reply else w.engines d)
    pushes := w.pushes ++ pushes }

/-- `resolve_conflict` of one engine, and what the server pushes. -/
def resolve (w : ConflictWorld) (d : ℕ) (gameId : GameId) (choice : ResolveChoice) (id : Uuid)
    (now : Timestamp) (answered : Bool) : ConflictWorld :=
  let (e, s', pushes, _) := (w.engines d).resolveConflict w.server gameId choice id now answered
  { server := s'
    engines := Function.update w.engines d e
    pushes := w.pushes ++ pushes }

/-- No upload and no conflict yet. -/
structure New (w : ConflictWorld) : Prop where
  fresh : w.server.db.Fresh
  empty : ∀ hash, w.server.objects hash = none
  conflicts : ∀ d gameId, (w.engines d).conflicts gameId = none
  pushes : w.pushes = []

end ConflictWorld

/-- One transaction of the server or one arrival of a push.  A device uploads under
its own id, and the id the server draws is new. -/
inductive ConflictStep : ConflictWorld → ConflictEvent → ConflictWorld → Prop
  | blobPut {w : ConflictWorld} (hash : Blake3Hash) (body : Archive) (now : Timestamp) :
      ConflictStep w (.blobPut hash body now)
        { w with server := (w.server.blobPut hash body now).1 }
  | create {w : ConflictWorld} (d : ℕ) (gameId : GameId) (req : CreateVersion) (id : VersionId)
      (now : Timestamp) (answered : Bool)
      (author : req.deviceId = (w.engines d).auth.deviceId) (fresh : req.parent ≠ some id) :
      ConflictStep w (.create d gameId req id now answered)
        (w.create d gameId req id now answered)
  | deliver {w : ConflictWorld} (d : ℕ) (b : Broadcast) (sent : b ∈ w.pushes)
      (reaches : b.reaches (w.engines d).auth.accountId (w.engines d).auth.deviceId = true) :
      ConflictStep w (.deliver d b) (w.setEngine d ((w.engines d).receive b.msg))
  | resolve {w : ConflictWorld} (d : ℕ) (gameId : GameId) (choice : ResolveChoice) (id : Uuid)
      (now : Timestamp) (answered : Bool) :
      ConflictStep w (.resolve d gameId choice id now answered)
        (w.resolve d gameId choice id now answered)

/-! ### Tips are versions of their game -/

/-- The version is in the history of the game. -/
def Server.Lists (s : Server) (account : AccountId) (gameId : GameId) (id : VersionId) : Prop :=
  ∃ v ∈ s.db.listVersions account gameId, v.id = id

/-- What the engine has recorded names versions of the game. -/
def Engine.Tipped (e : Engine) (s : Server) : Prop :=
  ∀ gameId tips, e.conflicts gameId = some tips →
    s.Lists e.auth.accountId gameId tips.mine ∧ s.Lists e.auth.accountId gameId tips.theirs

/-- **The invariant**: so does every push that is on its way. -/
structure Tipped (w : ConflictWorld) : Prop where
  sound : w.server.Sound
  recorded : ∀ d, (w.engines d).Tipped w.server
  pushed : ∀ b ∈ w.pushes, ∀ gameId tips, b.msg = .conflict gameId tips →
    ∀ id ∈ tips, w.server.Lists b.accountId gameId id

section Invariant

variable {w w' w₀ : ConflictWorld} {ev : ConflictEvent} {trace : List ConflictEvent}
  {account : AccountId} {gameId : GameId} {id : VersionId} {s s' : Server}

omit [Blake3] in
theorem Server.Lists.mono (h : s.Lists account gameId id) (hle : s.Le s') :
    s'.Lists account gameId id := by
  obtain ⟨v, hv, hid⟩ := h
  exact ⟨v, hle.listVersions hv, hid⟩

omit [Blake3] in
theorem Engine.Tipped.mono {e : Engine} (h : e.Tipped s) (hle : s.Le s') : e.Tipped s' := by
  intro g tips htips
  obtain ⟨hmine, htheirs⟩ := h g tips htips
  exact ⟨hmine.mono hle, htheirs.mono hle⟩

omit [Blake3] in
/-- Recording a conflict whose two sides the server lists keeps the tips shown on the
server's list. -/
theorem Engine.Tipped.record {e : Engine} (h : e.Tipped s) {tips : ConflictTips}
    (hmine : s.Lists e.auth.accountId gameId tips.mine)
    (htheirs : s.Lists e.auth.accountId gameId tips.theirs) :
    ({ e with conflicts := Function.update e.conflicts gameId (some tips) } : Engine).Tipped s := by
  intro g tips' htips
  change Function.update e.conflicts gameId (some tips) g = some tips' at htips
  by_cases hg : g = gameId
  · subst hg
    rw [Function.update_self] at htips
    obtain rfl := Option.some.inj htips
    exact ⟨hmine, htheirs⟩
  · rw [Function.update_of_ne hg] at htips
    exact h g tips' htips

/-- The server grows, one engine changes within what the server lists, and pushes are
added that name what the server lists. -/
theorem Tipped.extend (h : Tipped w) (sound : s.Sound) (hle : w.server.Le s) (d : ℕ) {e : Engine}
    (he : e.Tipped s) {pushes : List Broadcast}
    (hpushed : ∀ b ∈ pushes, ∀ gameId tips, b.msg = .conflict gameId tips →
      ∀ id ∈ tips, s.Lists b.accountId gameId id) :
    Tipped ⟨s, Function.update w.engines d e, w.pushes ++ pushes⟩ := by
  refine ⟨sound, fun d' => ?_, fun b hb g tips hmsg id hid => ?_⟩
  · change (Function.update w.engines d e d').Tipped s
    by_cases hd : d' = d
    · subst hd
      rw [Function.update_self]
      exact he
    · rw [Function.update_of_ne hd]
      exact (h.recorded d').mono hle
  · rcases List.mem_append.mp hb with hb | hb
    · exact (h.pushed b hb g tips hmsg id hid).mono hle
    · exact hpushed b hb g tips hmsg id hid

theorem Tipped.extend_silent (h : Tipped w) (sound : s.Sound) (hle : w.server.Le s) (d : ℕ)
    {e : Engine} (he : e.Tipped s) :
    Tipped ⟨s, Function.update w.engines d e, w.pushes⟩ := by
  have hextend : Tipped ⟨s, Function.update w.engines d e, w.pushes ++ []⟩ :=
    h.extend sound hle d he (by simp)
  rwa [List.append_nil] at hextend

omit [Blake3] in
theorem headVersion_listed (wf : s.db.WF) {h : Version}
    (hh : s.db.headVersion account gameId = some h) : h ∈ s.db.listVersions account gameId := by
  obtain ⟨hid, hhead, -⟩ := Option.bind_eq_some_iff.mp hh
  obtain ⟨row, hrow, -, hversion⟩ := wf.exists_headVersion hhead
  obtain rfl := Option.some.inj (hversion.symm.trans hh)
  obtain ⟨hmem, hg, hacc⟩ := Db.mem_gameRows.mp hrow
  exact Db.mem_listVersions.mpr ⟨row, hmem, hg, hacc, rfl⟩

/-- What a conflict report names is listed. -/
theorem createVersion_conflict_listed (sound : s.Sound) {auth : Authed} {req : CreateVersion}
    {now : Timestamp} (hfresh : req.parent ≠ some id) {head : Option Version} {incoming : Version}
    (hreply : (s.createVersion auth gameId req id now).2.1 = .ok (.conflict head incoming)) :
    (∀ h, head = some h →
      h ∈ (s.createVersion auth gameId req id now).1.db.listVersions auth.accountId gameId) ∧
    incoming ∈ (s.createVersion auth gameId req id now).1.db.listVersions auth.accountId gameId ∧
    incoming.deviceId = req.deviceId ∧
    (s.createVersion auth gameId req id now).2.2 =
      [{ accountId := auth.accountId, except := none,
         msg := .conflict gameId ((head.map Version.id).toList ++ [incoming.id]) }] := by
  rcases Server.createVersion_cases sound auth gameId now hfresh with
    ⟨e, heq⟩ | ⟨-, -, -, -, advance, hadvance, heq⟩
  · rw [heq] at hreply
    cases hreply
  · rw [heq] at hreply ⊢
    obtain rfl : advance = .conflict head incoming := Except.ok.inj hreply
    split at hadvance
    · cases hadvance
    · obtain ⟨rfl, rfl⟩ := Advance.conflict.inj hadvance
      refine ⟨fun h hh => ?_, Server.newVersion_mem _ _ _ _ _ _, rfl, rfl⟩
      exact (Server.withVersion_le s _ _ _ _ _).listVersions (headVersion_listed sound.wf hh)

/-- Only a conflict is pushed as one. -/
theorem createVersion_pushes (sound : s.Sound) {auth : Authed} {req : CreateVersion}
    {now : Timestamp} (hfresh : req.parent ≠ some id) {b : Broadcast}
    (hb : b ∈ (s.createVersion auth gameId req id now).2.2) {g : GameId} {tips : List VersionId}
    (hmsg : b.msg = .conflict g tips) :
    ∃ head incoming,
      (s.createVersion auth gameId req id now).2.1 = .ok (.conflict head incoming) ∧
      b.accountId = auth.accountId ∧ g = gameId ∧
      tips = (head.map Version.id).toList ++ [incoming.id] := by
  rcases Server.createVersion_cases sound auth gameId now hfresh with
    ⟨e, heq⟩ | ⟨-, -, -, -, advance, -, heq⟩
  · rw [heq] at hb
    cases hb
  · rw [heq] at hb ⊢
    cases advance with
    | fastForward v =>
        obtain rfl := List.mem_singleton.mp hb
        cases hmsg
    | conflict head incoming =>
        obtain rfl := List.mem_singleton.mp hb
        obtain ⟨rfl, rfl⟩ := ServerMsg.conflict.inj hmsg
        exact ⟨head, incoming, rfl, rfl, rfl, rfl⟩

omit [Blake3] in
/-- A resolution is pushed as a new version. -/
theorem resolve_pushes {auth : Authed} {winner : VersionId} {keepBoth : Bool} {uuid : Uuid}
    {now : Timestamp} {b : Broadcast}
    (hb : b ∈ (s.resolve auth gameId winner keepBoth uuid now).2.2) {g : GameId}
    {tips : List VersionId} : b.msg ≠ .conflict g tips := by
  unfold Server.resolve at hb
  split at hb
  rename_i db reply heq
  cases reply with
  | error e => cases hb
  | ok r =>
      obtain ⟨v, -, rfl⟩ := List.mem_map.mp hb
      simp

/-- A commit keeps the tips of every engine: it adds a version and changes none, and what
the writer records is its own version and the head it was refused for. -/
theorem Tipped.create (h : Tipped w) {d : ℕ} {req : CreateVersion} {now : Timestamp}
    {answered : Bool} (hfresh : req.parent ≠ some id) :
    Tipped (w.create d gameId req id now answered) := by
  have hsound : (w.server.createVersion (w.engines d).auth gameId req id now).1.Sound :=
    Server.createVersion_sound h.sound hfresh
  have hle : w.server.Le (w.server.createVersion (w.engines d).auth gameId req id now).1 :=
    Server.createVersion_le h.sound hfresh
  have hconflict : ∀ head incoming,
      (w.server.createVersion (w.engines d).auth gameId req id now).2.1 =
        .ok (.conflict head incoming) →
      (∀ hv, head = some hv → (w.server.createVersion (w.engines d).auth gameId req id
        now).1.Lists (w.engines d).auth.accountId gameId hv.id) ∧
      (w.server.createVersion (w.engines d).auth gameId req id
        now).1.Lists (w.engines d).auth.accountId gameId incoming.id := by
    intro head incoming hreply
    obtain ⟨hhead, hincoming, -, -⟩ := createVersion_conflict_listed h.sound hfresh hreply
    exact ⟨fun hv hhv => ⟨hv, hhead hv hhv, rfl⟩, incoming, hincoming, rfl⟩
  have hold := (h.recorded d).mono hle
  refine h.extend hsound hle d ?_ fun b hb g tips hmsg id' hid => ?_
  -- what the uploader records from the reply
  · split
    · unfold Engine.onReply
      split
      · rename_i head incoming hreply
        obtain ⟨hhead, hincoming⟩ := hconflict head incoming hreply
        refine hold.record hincoming ?_
        cases head with
        | none => exact hincoming
        | some hv => exact hhead hv rfl
      · exact hold
    · exact hold
  -- what the others are told
  · obtain ⟨head, incoming, hreply, hacc, rfl, rfl⟩ :=
      createVersion_pushes h.sound hfresh hb hmsg
    obtain ⟨hhead, hincoming⟩ := hconflict head incoming hreply
    rw [hacc]
    rcases List.mem_append.mp hid with hid | hid
    · obtain ⟨hv, rfl, rfl⟩ : ∃ hv, head = some hv ∧ hv.id = id' := by simpa using hid
      exact hhead hv rfl
    · obtain rfl := List.mem_singleton.mp hid
      exact hincoming

/-- A delivered push carries a version that is listed, so the tips it records are. -/
theorem Tipped.deliver (h : Tipped w) {d : ℕ} {b : Broadcast} (sent : b ∈ w.pushes)
    (reaches : b.reaches (w.engines d).auth.accountId (w.engines d).auth.deviceId = true) :
    Tipped (w.setEngine d ((w.engines d).receive b.msg)) := by
  have hacc : b.accountId = (w.engines d).auth.accountId := by
    simp only [Broadcast.reaches, Bool.and_eq_true, decide_eq_true_eq] at reaches
    exact reaches.1
  have he : ((w.engines d).receive b.msg).Tipped w.server := by
    cases hmsg : b.msg with
    | versionAvailable _ _ _ | configUpdated _ | deviceAdded _ => exact h.recorded d
    | conflict g tips =>
        have hlisted := h.pushed b sent g tips hmsg
        rw [hacc] at hlisted
        change ((w.engines d).recordWsConflict g tips).Tipped w.server
        unfold Engine.recordWsConflict
        split
        · rename_i theirs mine htheirs hmine
          exact (h.recorded d).record (hlisted _ (List.mem_of_getElem? hmine))
            (hlisted _ (List.mem_of_getElem? htheirs))
        · exact h.recorded d
  exact h.extend_silent h.sound (Server.Le.refl _) d he

omit [Blake3] in
/-- Everything a resolution can do: nothing without a pending conflict; else what the
server does, and the conflict may stay or go. -/
theorem Engine.resolveConflict_cases (e : Engine) (s : Server) (gameId : GameId)
    (choice : ResolveChoice) (uuid : Uuid) (now : Timestamp) (answered : Bool) :
    (e.conflicts gameId = none ∧
      ∃ msg, e.resolveConflict s gameId choice uuid now answered = (e, s, [], msg)) ∨
    ∃ tips, e.conflicts gameId = some tips ∧
      ∃ conflict msg, (conflict = none ∨ conflict = some tips) ∧
        e.resolveConflict s gameId choice uuid now answered =
          ({ e with conflicts := Function.update e.conflicts gameId conflict },
            (s.resolve e.auth gameId (resolveRequest tips choice).winner
              (resolveRequest tips choice).keepBoth uuid now).1,
            (s.resolve e.auth gameId (resolveRequest tips choice).winner
              (resolveRequest tips choice).keepBoth uuid now).2.2, msg) := by
  unfold resolveConflict
  cases htips : e.conflicts gameId with
  | none => exact Or.inl ⟨rfl, _, rfl⟩
  | some tips =>
      refine Or.inr ⟨tips, rfl, ?_⟩
      have hsame : e = { e with conflicts := Function.update e.conflicts gameId (some tips) } := by
        rw [← htips, Function.update_eq_self]
      simp only
      split
      · split
        · exact ⟨none, _, Or.inl rfl, rfl⟩
        · exact ⟨some tips, _, Or.inr rfl, by rw [← hsame]⟩
      · exact ⟨some tips, _, Or.inr rfl, by rw [← hsame]⟩

/-- A resolution moves the head and removes no version, and the engine that asks drops its
conflict. -/
theorem Tipped.resolve (h : Tipped w) {d : ℕ} {choice : ResolveChoice} {uuid : Uuid}
    {now : Timestamp} {answered : Bool} :
    Tipped (w.resolve d gameId choice uuid now answered) := by
  unfold ConflictWorld.resolve
  rcases (w.engines d).resolveConflict_cases w.server gameId choice uuid now answered with
    ⟨-, msg, heq⟩ | ⟨tips, htips, conflict, msg, hconflict, heq⟩
  · rw [heq]
    exact h.extend h.sound (Server.Le.refl _) d (h.recorded d) (List.forall_mem_nil _)
  · rw [heq]
    have hle : w.server.Le (w.server.resolve (w.engines d).auth gameId
        (Engine.resolveRequest tips choice).winner (Engine.resolveRequest tips choice).keepBoth
        uuid now).1 := Server.resolve_le h.sound
    have hold := (h.recorded d).mono hle
    refine h.extend (Server.resolve_sound h.sound) hle d ?_
      fun b hb g tips' hmsg => absurd hmsg (resolve_pushes hb)
    rcases hconflict with rfl | rfl
    · intro g tips' htips'
      change Function.update (w.engines d).conflicts gameId none g = some tips' at htips'
      by_cases hg : g = gameId
      · subst hg
        rw [Function.update_self] at htips'
        cases htips'
      · rw [Function.update_of_ne hg] at htips'
        exact hold g tips' htips'
    · exact hold.record (hold gameId tips htips).1 (hold gameId tips htips).2

/-- Every step keeps the tips of every engine on the server's list. -/
theorem Tipped.step (h : Tipped w) (step : ConflictStep w ev w') : Tipped w' := by
  cases step with
  | blobPut hash body now =>
      have hput : Tipped ⟨(w.server.blobPut hash body now).1,
          Function.update w.engines 0 (w.engines 0), w.pushes⟩ :=
        h.extend_silent (Server.blobPut_sound h.sound) Server.blobPut_le 0
          ((h.recorded 0).mono Server.blobPut_le)
      rwa [Function.update_eq_self] at hput
  | create d gameId req id now answered author fresh => exact h.create fresh
  | deliver d b sent reaches => exact h.deliver sent reaches
  | resolve d gameId choice id now answered => exact h.resolve

theorem ConflictWorld.New.tipped (new : w.New) : Tipped w := by
  refine ⟨Server.Sound.of_fresh new.fresh new.empty, fun d gameId tips htips => ?_, ?_⟩
  · rw [new.conflicts] at htips
    cases htips
  · simp [new.pushes]

theorem tipped_run (new : w₀.New) (run : Run ConflictStep w₀ trace w) : Tipped w :=
  run.invariant (I := Tipped) (fun _ _ _ h step => h.step step) new.tipped

end Invariant

/-! ### Which head a resolution replaces -/

/-- A resolution touches only what its user was shown: a head that is neither of the
two tips stays, with an error and no other effect, and every version that is recorded
as a loser is one of the tips. -/
def ReplacesShown (s : Server) (auth : Authed) (gameId : GameId) (tips : ConflictTips)
    (req : ResolveRequest) (id : Uuid) (now : Timestamp) : Prop :=
  (∀ h, s.db.head auth.accountId gameId = some h → h ≠ tips.theirs → h ≠ tips.mine →
    (∃ e, (s.resolve auth gameId req.winner req.keepBoth id now).2.1 = .error e) ∧
      (s.resolve auth gameId req.winner req.keepBoth id now).1 = s) ∧
  ∀ rows, (s.resolve auth gameId req.winner req.keepBoth id now).1.db.resolvedConflicts =
      s.db.resolvedConflicts ++ rows →
    ∀ row ∈ rows, row.loser = tips.theirs ∨ row.loser = tips.mine

/-- With a listed winner the resolution succeeds, whatever the head is. -/
theorem resolve_of_listed {s : Server} (sound : s.Sound) {auth : Authed} {gameId : GameId}
    {winner : VersionId} (listed : s.Lists auth.accountId gameId winner) (keepBoth : Bool)
    (id : Uuid) (now : Timestamp) :
    (∃ response, (s.resolve auth gameId winner keepBoth id now).2.1 = .ok response) ∧
      (s.resolve auth gameId winner keepBoth id now).1.db.resolvedConflicts =
        s.db.resolvedConflicts ++ Db.loserRows auth.accountId gameId winner keepBoth id now
          (s.db.head auth.accountId gameId) := by
  obtain ⟨v, hv, rfl⟩ := listed
  obtain ⟨row, hrow, hg, hacc, rfl⟩ := Db.mem_listVersions.mp hv
  obtain ⟨game, hgame, hgid, hgacc⟩ := sound.wf.gameOwned row hrow
  have hfind := Db.findGame_of_mem sound.wf.gameIds hgame
  rw [hgid, hgacc, hg, hacc] at hfind
  rcases Db.resolveConflict_cases sound.wf.gameIds auth.accountId gameId row.toVersion.id keepBoth
    id now with ⟨hnone, -⟩ | ⟨-, -, hmissing, -⟩ | ⟨game', row', -, hgame', -, heq⟩
  · rw [hfind] at hnone
    cases hnone
  · exact absurd rfl (hmissing row (Db.mem_gameRows.mpr ⟨hrow, hg, hacc⟩))
  · constructor
    · refine ⟨⟨some row.id, some row'.seq⟩, ?_⟩
      rw [Server.resolve, heq]
    · rw [Server.resolve_server, heq]
      have hhead : s.db.head auth.accountId gameId = game'.head := by
        rw [Db.head, hgame']
        rfl
      rw [hhead]
      rfl

section Resolve

variable {w w₀ : ConflictWorld} {trace : List ConflictEvent} {d : ℕ} {gameId : GameId}
  {tips : ConflictTips}

/-- **Conflict resolution and the head.**  In every reachable state, for every recorded
conflict and every choice: the resolution touches only what its user was shown if and
only if the head still is one of the two tips (or there is none). -/
theorem resolve_replaces_shown_iff (new : w₀.New) (run : Run ConflictStep w₀ trace w)
    (pending : (w.engines d).conflicts gameId = some tips) (choice : ResolveChoice) (id : Uuid)
    (now : Timestamp) :
    ReplacesShown w.server (w.engines d).auth gameId tips (Engine.resolveRequest tips choice)
        id now ↔
      ∀ h, w.server.db.head (w.engines d).auth.accountId gameId = some h →
        h = tips.theirs ∨ h = tips.mine := by
  have htipped := tipped_run new run
  obtain ⟨hmine, htheirs⟩ := htipped.recorded d gameId tips pending
  have hwinner : w.server.Lists (w.engines d).auth.accountId gameId
      (Engine.resolveRequest tips choice).winner := by
    cases choice with
    | keepMine => exact hmine
    | keepTheirs => exact htheirs
    | keepBoth => exact hmine
  obtain ⟨⟨response, hok⟩, hrows⟩ := resolve_of_listed htipped.sound hwinner
    (Engine.resolveRequest tips choice).keepBoth id now
  constructor
  -- the winner is listed, so the server accepts whatever the head has become
  · rintro ⟨hrejected, -⟩ h hh
    by_contra hother
    rw [not_or] at hother
    obtain ⟨⟨e, herr⟩, -⟩ := hrejected h hh hother.1 hother.2
    rw [hok] at herr
    cases herr
  · intro hshown
    refine ⟨fun h hh htheirs' hmine' => ?_, fun rows hrows' row hrow => ?_⟩
    · rcases hshown h hh with rfl | rfl
      · exact absurd rfl htheirs'
      · exact absurd rfl hmine'
    · obtain rfl := List.append_cancel_left (hrows.symm.trans hrows')
      unfold Db.loserRows at hrow
      split at hrow
      · cases hrow
      · rename_i loser hloser
        split at hrow
        · cases hrow
        · obtain rfl := List.mem_singleton.mp hrow
          exact hshown loser hloser

end Resolve

/-! ### Which tip is mine -/

/-- How a device learned of a conflict. -/
inductive ConflictPath
  | reply
  | push
  deriving DecidableEq, Repr

/-- The event makes the device record the conflict between the head `h` and the incoming
version `i`, which it learned of in this way. -/
inductive Records (w : ConflictWorld) (gameId : GameId) (h i : Version) :
    ConflictEvent → ℕ → ConflictPath → Prop
  | reply {d : ℕ} {req : CreateVersion} {id : VersionId} {now : Timestamp}
      (reported : (w.server.createVersion (w.engines d).auth gameId req id now).2.1 =
        .ok (.conflict (some h) i)) :
      Records w gameId h i (.create d gameId req id now true) d .reply
  | push {d : ℕ} {b : Broadcast}
      (head : h ∈ w.server.db.listVersions b.accountId gameId)
      (incoming : i ∈ w.server.db.listVersions b.accountId gameId)
      (tips : b.msg = .conflict gameId [h.id, i.id]) :
      Records w gameId h i (.deliver d b) d .push

/-- If the device authored one of the two tips, that one is `mine` and the other is
`theirs`; so keeping mine selects the version it authored. -/
def Engine.RolesAgree (e : Engine) (gameId : GameId) (h i : Version) : Prop :=
  ∃ tips, e.conflicts gameId = some tips ∧
    (e.auth.deviceId = h.deviceId → tips.mine = h.id ∧ tips.theirs = i.id) ∧
    (e.auth.deviceId = i.deviceId → tips.mine = i.id ∧ tips.theirs = h.id) ∧
    ∀ v, v = h ∨ v = i → e.auth.deviceId = v.deviceId →
      (Engine.resolveRequest tips .keepMine).winner = v.id

section Roles

variable {w w' w₀ : ConflictWorld} {trace : List ConflictEvent} {ev : ConflictEvent} {d : ℕ}
  {gameId : GameId} {h i : Version} {path : ConflictPath}

omit [Blake3] in
/-- Recording the head as theirs and the incoming version as mine is right for every
device but the author of the head. -/
theorem rolesAgree_iff {e : Engine} (hne : h.id ≠ i.id) (hauthors : h.deviceId ≠ i.deviceId)
    (htips : e.conflicts gameId = some { mine := i.id, theirs := h.id }) :
    e.RolesAgree gameId h i ↔ e.auth.deviceId ≠ h.deviceId := by
  constructor
  · rintro ⟨tips, htips', hhead, -⟩ hauthor
    rw [htips] at htips'
    obtain rfl := Option.some.inj htips'
    exact hne (hhead hauthor).1.symm
  · intro hauthor
    refine ⟨_, htips, fun hh => absurd hh hauthor, fun _ => ⟨rfl, rfl⟩, ?_⟩
    rintro v (rfl | rfl) hv
    · exact absurd hv hauthor
    · rfl

/-- **Who is who in a conflict.**  In every run, whenever a device records a reported
conflict between versions of different authors, the roles agree with the authors if and
only if the device learned of it from the reply to its own upload, or is not the author
of the head. -/
theorem recorded_roles_agree_iff (new : w₀.New) (run : Run ConflictStep w₀ trace w)
    (step : ConflictStep w ev w') (records : Records w gameId h i ev d path)
    (authors : h.deviceId ≠ i.deviceId) :
    (w'.engines d).RolesAgree gameId h i ↔
      (path = .push → (w.engines d).auth.deviceId ≠ h.deviceId) := by
  have htipped := tipped_run new run
  have hids : ∀ {s : Server} {account : AccountId}, s.Sound →
      h ∈ s.db.listVersions account gameId → i ∈ s.db.listVersions account gameId →
      h.id ≠ i.id := by
    intro s account sound hh hi heq
    have := List.inj_on_of_nodup_map (sound.wf.distinctIds account gameId) hh hi heq
    exact authors (congrArg Version.deviceId this)
  cases records with
  | @reply _ req id now reported =>
      cases step with
      | create _ _ _ _ _ _ author fresh =>
          obtain ⟨hhead, hincoming, hdevice, -⟩ :=
            createVersion_conflict_listed htipped.sound fresh reported
          have hne := hids (Server.createVersion_sound htipped.sound fresh) (hhead h rfl) hincoming
          have hengine : (w.create d gameId req id now true).engines d =
              (w.engines d).onReply gameId (.ok (.conflict (some h) i)) := by
            simp only [ConflictWorld.create, reported, if_true, Function.update_self]
          rw [hengine, rolesAgree_iff hne authors
            (by simp [Engine.onReply, Engine.recordConflict])]
          -- the reply goes to the author of the incoming version
          refine iff_of_true ?_ fun hpush => by cases hpush
          change (w.engines d).auth.deviceId ≠ h.deviceId
          rw [← author, ← hdevice]
          exact authors.symm
  | @push _ b head incoming tips =>
      cases step with
      | deliver _ _ sent reaches =>
          have hengine : (w.setEngine d ((w.engines d).receive b.msg)).engines d =
              (w.engines d).recordWsConflict gameId [h.id, i.id] := by
            simp [ConflictWorld.setEngine, Engine.receive, tips]
          rw [hengine, rolesAgree_iff (hids htipped.sound head incoming) authors
            (by simp [Engine.recordWsConflict])]
          exact ⟨fun hne _ => hne, fun hne => hne rfl⟩

end Roles

end General

/-! ### Two devices that diverge -/

section Example

local instance conflictDigest : Blake3 := plainDigest

/-- An empty full backup. -/
def exampleArchive : Archive where
  metadata :=
    { gameId := 10, deviceId := 21, parent := none, kind := .full, files := [],
      deletions := [], createdAt := 0 }
  payload := []
  registry := none

/-- It is uploaded by this device, on top of this version. -/
def exampleUpload (device : DeviceId) (parent : Option VersionId) : CreateVersion where
  parent := parent
  kind := .full
  files := []
  blobHash := Blake3.ofArchive exampleArchive
  bytes := 0
  deviceId := device

/-- Two devices of one account. Neither knows of a conflict yet. -/
def twoDevices : ConflictWorld where
  server :=
    { db :=
        { accounts := [1],
          devices :=
            [⟨21, 1, "pc21", .linux, "", none, false⟩, ⟨22, 1, "pc22", .linux, "", none, false⟩],
          blobs := [],
          games := [⟨10, 1, "Game", none, none⟩], versions := [], config := [],
          resolvedConflicts := [] }
      objects := fun _ => none }
  engines d := { auth := ⟨1, if d = 0 then 21 else 22⟩, conflicts := fun _ => none }
  pushes := []

/-- The first device has uploaded version 101. -/
def firstUploaded : ConflictWorld :=
  ({ twoDevices with
      server := (twoDevices.server.blobPut (Blake3.ofArchive exampleArchive) exampleArchive
        0).1 } : ConflictWorld).create 0 10 (exampleUpload 21 none) 101 1 true

/-- The second device has uploaded version 102, without having seen 101. -/
def diverged : ConflictWorld :=
  firstUploaded.create 1 10 (exampleUpload 22 none) 102 2 true

/-- The first device has gone on to version 103. -/
def movedOn : ConflictWorld :=
  diverged.create 0 10 (exampleUpload 21 (some 101)) 103 3 true

theorem twoDevices_new : twoDevices.New :=
  ⟨⟨by decide, by decide, by decide, by decide, rfl, by decide, by decide⟩, fun _ => rfl,
    fun _ _ => rfl, rfl⟩

theorem firstUploaded_run : ∃ trace, Run ConflictStep twoDevices trace firstUploaded :=
  ⟨_, (Run.single (ConflictStep.blobPut _ _ _)).snoc
    (ConflictStep.create 0 10 (exampleUpload 21 none) 101 1 true rfl (by decide))⟩

theorem diverged_run : ∃ trace, Run ConflictStep twoDevices trace diverged := by
  obtain ⟨trace, run⟩ := firstUploaded_run
  exact ⟨_, run.snoc
    (ConflictStep.create 1 10 (exampleUpload 22 none) 102 2 true rfl (by decide))⟩

/-- The second device resolves the conflict between 101 and 102 after the head has moved
to 103: the server accepts, and 103 is the recorded loser. -/
theorem resolve_discards_unseen_head :
    twoDevices.New ∧ (∃ trace, Run ConflictStep twoDevices trace movedOn) ∧
      (movedOn.engines 1).conflicts 10 = some { mine := 102, theirs := 101 } ∧
      movedOn.server.db.head 1 10 = some 103 ∧
      ¬ ReplacesShown movedOn.server (movedOn.engines 1).auth 10 { mine := 102, theirs := 101 }
        (Engine.resolveRequest { mine := 102, theirs := 101 } .keepMine) 900 4 := by
  have hhead : movedOn.server.db.head 1 10 = some 103 := by decide +kernel
  have hok : (movedOn.server.resolve (movedOn.engines 1).auth 10 102 false
      900 4).2.1.isOk = true := by
    decide +kernel
  refine ⟨twoDevices_new, ?_, by decide +kernel, hhead, fun hshown => ?_⟩
  · obtain ⟨trace, run⟩ := diverged_run
    exact ⟨_, run.snoc
      (ConflictStep.create 0 10 (exampleUpload 21 (some 101)) 103 3 true rfl (by decide))⟩
  · obtain ⟨⟨e, herr⟩, -⟩ := hshown.1 103 hhead (by decide) (by decide)
    change (movedOn.server.resolve (movedOn.engines 1).auth 10 102 false 900 4).2.1 = _ at herr
    rw [herr] at hok
    cases hok

/-- Before the head moves, the resolution replaces what was shown. -/
theorem resolve_replaces_shown_diverged :
    ReplacesShown diverged.server (diverged.engines 1).auth 10 { mine := 102, theirs := 101 }
      (Engine.resolveRequest { mine := 102, theirs := 101 } .keepMine) 900 4 := by
  obtain ⟨trace, run⟩ := diverged_run
  refine (resolve_replaces_shown_iff twoDevices_new run (by decide +kernel) .keepMine 900 4).mpr ?_
  intro h hh
  have hhead : diverged.server.db.head 1 10 = some 101 := by decide +kernel
  exact Or.inl (Option.some.inj (hh.symm.trans hhead))

/-- The head of the conflict, by the first device. It declares no files, so nothing depends
on its archive. -/
def divergedHead : Version where
  id := 101
  gameId := 10
  deviceId := 21
  parent := none
  kind := .full
  files := []
  blobHash := Blake3.ofArchive exampleArchive
  bytes := 0
  seq := 1
  createdAt := 1

/-- The incoming version, by the second device. -/
def divergedIncoming : Version :=
  { divergedHead with id := 102, deviceId := 22, seq := 2, createdAt := 2 }

/-- The push of the conflict, as every device receives it. -/
def divergedPush : Broadcast where
  accountId := 1
  except := none
  msg := .conflict 10 [101, 102]

/-- The first device, which authored the head, records the other version as its own. -/
theorem push_swaps_roles :
    twoDevices.New ∧ (∃ trace, Run ConflictStep twoDevices trace diverged) ∧
      ∃ w', ConflictStep diverged (.deliver 0 divergedPush) w' ∧
        Records diverged 10 divergedHead divergedIncoming (.deliver 0 divergedPush) 0 .push ∧
        divergedHead.deviceId ≠ divergedIncoming.deviceId ∧
        ¬ (w'.engines 0).RolesAgree 10 divergedHead divergedIncoming := by
  refine ⟨twoDevices_new, diverged_run, _,
    ConflictStep.deliver 0 divergedPush (by decide +kernel) (by decide +kernel),
    Records.push (by decide +kernel) (by decide +kernel) rfl, by decide, ?_⟩
  rintro ⟨tips, htips, hhead, -⟩
  have hmine : tips.mine = 101 := (hhead (by decide +kernel)).1
  have hrecorded : ((diverged.setEngine 0 ((diverged.engines 0).receive
      divergedPush.msg)).engines 0).conflicts 10 = some { mine := 102, theirs := 101 } := by
    decide +kernel
  rw [hrecorded] at htips
  obtain rfl := Option.some.inj htips
  exact absurd hmine (by decide)

/-- The second device, from the reply to its own upload, gets the roles right. -/
theorem reply_keeps_roles :
    (diverged.engines 1).RolesAgree 10 divergedHead divergedIncoming := by
  obtain ⟨trace, run⟩ := firstUploaded_run
  have hreported : (firstUploaded.server.createVersion (firstUploaded.engines 1).auth 10
      (exampleUpload 22 none) 102 2).2.1 =
        .ok (.conflict (some divergedHead) divergedIncoming) := by
    decide +kernel
  exact (recorded_roles_agree_iff twoDevices_new run
    (ConflictStep.create 1 10 (exampleUpload 22 none) 102 2 true rfl (by decide))
    (Records.reply hreported) (by decide)).mpr fun hpush => by cases hpush

end Example

end Savr
