import Savr.Daemon.Backup
import Savr.Server.ApiSpec

/-!
# Facts about actions and uploads

What every list of actions keeps, whatever the operation it comes from, and what
one upload does.

## Main results

* `Machine.always_sound` — along any actions with fresh ids the server stays sound
  and loses nothing.
* `uploadVersion_requests`, `uploadVersion_stored` — an upload only sends requests,
  and a version it got an answer for is stored with everything the request said.
-/

namespace Savr

open Script

variable [Blake3]

namespace Machine

variable {m : Machine} {as bs : List Action}

@[simp] theorem run_nil : m.run [] = m := rfl

@[simp] theorem run_cons (a : Action) : m.run (a :: as) = (m.apply a).run as := rfl

@[simp] theorem run_append : m.run (as ++ bs) = (m.run as).run bs :=
  Script.run_append

@[simp] theorem apply_write (w : Write) :
    m.apply (.write w) = { m with device := w.apply m.device } := rfl

theorem freshFor_append : m.FreshFor (as ++ bs) ↔ m.FreshFor as ∧ (m.run as).FreshFor bs := by
  induction as generalizing m with
  | nil => simp [FreshFor]
  | cons a as ih => rw [List.cons_append, FreshFor, FreshFor, ih, run_cons, and_assoc]

/-- Ids that are fresh for a script are fresh for every part of it that runs. -/
theorem FreshFor.take (fresh : m.FreshFor as) (k : ℕ) : m.FreshFor (as.take k) := by
  rw [← List.take_append_drop k as, freshFor_append] at fresh
  exact fresh.1

omit [Blake3] in
theorem Write.apply_accountId (d : Device) (w : Write) :
    (w.apply d).accountId = d.accountId := by
  cases w <;> rfl

/-- **What every action keeps.** -/
theorem always_sound (sound : m.server.Sound) (fresh : m.FreshFor as) :
    Always Machine.apply (fun m' => m'.server.Sound ∧ m.server.Le m'.server ∧
      m'.device.accountId = m.device.accountId) m as := by
  induction as generalizing m with
  | nil => exact always_nil.mpr ⟨sound, Server.Le.refl _, rfl⟩
  | cons a as ih =>
      obtain ⟨hnew, hrest⟩ := fresh
      have hstep : (m.apply a).server.Sound ∧ m.server.Le (m.apply a).server ∧
          (m.apply a).device.accountId = m.device.accountId := by
        cases a with
        | write w => exact ⟨sound, Server.Le.refl _, Write.apply_accountId m.device w⟩
        | request r =>
            cases r with
            | blobPut hash body now => exact ⟨Server.blobPut_sound sound, Server.blobPut_le, rfl⟩
            | createVersion gameId req id now =>
                exact ⟨Server.createVersion_sound sound hnew.1,
                  Server.createVersion_le sound hnew.1, rfl⟩
            | resolve gameId winner keepBoth id now =>
                exact ⟨Server.resolve_sound sound, Server.resolve_le sound, rfl⟩
      rw [always_cons]
      refine ⟨⟨sound, Server.Le.refl _, rfl⟩, (ih hstep.1 hrest).imp ?_⟩
      rintro m' ⟨hsound, hle, hacc⟩
      exact ⟨hsound, hstep.2.1.trans hle, hacc.trans hstep.2.2⟩

theorem run_sound (sound : m.server.Sound) (fresh : m.FreshFor as) :
    (m.run as).server.Sound ∧ m.server.Le (m.run as).server ∧
      (m.run as).device.accountId = m.device.accountId :=
  (always_sound sound fresh).finish

/-- Requests do not touch the device. -/
theorem run_requests_device (hreq : ∀ a ∈ as, ∃ r, a = Action.request r) :
    (m.run as).device = m.device := by
  induction as generalizing m with
  | nil => rfl
  | cons a as ih =>
      obtain ⟨r, rfl⟩ := hreq a (by simp)
      rw [run_cons, ih fun b hb => hreq b (by simp [hb])]
      rfl

theorem always_requests_device (hreq : ∀ a ∈ as, ∃ r, a = Action.request r) :
    Always Machine.apply (fun m' => m'.device = m.device) m as := by
  refine Always.of_step rfl fun m' hdev a ha => ?_
  obtain ⟨r, rfl⟩ := hreq a ha
  exact hdev

end Machine

/-! ### Uploads -/

section Upload

variable {m : Machine} {fault : Fault} {gameId : GameId} {create : CreateVersion}
  {archivePath : Blake3Hash} {draw : Draw}

omit [Blake3] in
theorem mem_postVersion {a : Action} (ha : a ∈ (postVersion m fault gameId create draw).1) :
    a = .request (.createVersion gameId create draw.versionId draw.now) := by
  unfold postVersion at ha
  cases fault <;> simp at ha <;> exact ha

/-- **Everything an upload can do**: at most the `PUT`, and then nothing or the `POST`
on the state the `PUT` left. -/
theorem uploadVersion_cases (m : Machine) (fault : Fault) (gameId : GameId)
    (create : CreateVersion) (archivePath : Blake3Hash) (draw : Draw) :
    ∃ puts : List Action,
      (∀ a ∈ puts, ∃ body, a = .request (.blobPut create.blobHash body draw.now)) ∧
      (uploadVersion m fault gameId create archivePath draw = (puts, none) ∨
        uploadVersion m fault gameId create archivePath draw =
          (puts ++ (postVersion (m.run puts) fault gameId create draw).1,
            (postVersion (m.run puts) fault gameId create draw).2)) := by
  unfold uploadVersion
  split
  · exact ⟨[], by simp, Or.inl rfl⟩
  · split
    · exact ⟨[], by simp, Or.inr rfl⟩
    · split
      · exact ⟨[], by simp, Or.inl rfl⟩
      · rename_i body _
        split
        · exact ⟨[], by simp, Or.inl rfl⟩
        · split
          · exact ⟨[_], by simp, Or.inl rfl⟩
          · split
            · exact ⟨[_], by simp, Or.inl rfl⟩
            · exact ⟨[.request (.blobPut create.blobHash body draw.now)], by simp, Or.inr rfl⟩

/-- An upload sends its archive and its version, and nothing else. -/
theorem mem_uploadVersion {a : Action}
    (ha : a ∈ (uploadVersion m fault gameId create archivePath draw).1) :
    (∃ body, a = .request (.blobPut create.blobHash body draw.now)) ∨
      a = .request (.createVersion gameId create draw.versionId draw.now) := by
  obtain ⟨puts, hputs, heq | heq⟩ := uploadVersion_cases m fault gameId create archivePath draw
  · rw [heq] at ha
    exact Or.inl (hputs a ha)
  · rw [heq] at ha
    rcases List.mem_append.mp ha with ha | ha
    · exact Or.inl (hputs a ha)
    · exact Or.inr (mem_postVersion ha)

/-- An upload asks the server and writes nothing on the device. -/
theorem uploadVersion_requests (m : Machine) (fault : Fault) (gameId : GameId)
    (create : CreateVersion) (archivePath : Blake3Hash) (draw : Draw) :
    ∀ a ∈ (uploadVersion m fault gameId create archivePath draw).1,
      ∃ r, a = Action.request r := by
  intro a ha
  rcases mem_uploadVersion ha with ⟨body, rfl⟩ | rfl
  · exact ⟨_, rfl⟩
  · exact ⟨_, rfl⟩

/-- The reply to a version that came through, if the server took it. -/
def answered : Except ApiError Advance → Option Advance
  | .ok advance => some advance
  | .error _ => none

/-- A reply to the `POST` means that the version is stored. -/
theorem postVersion_stored (sound : m.server.Sound)
    (fresh : m.FreshFor (postVersion m fault gameId create draw).1) {advance : Advance}
    (hreply : (postVersion m fault gameId create draw).2 = some advance) :
    advance.version ∈ (m.run (postVersion m fault gameId create draw).1).server.db.listVersions
        m.device.accountId gameId ∧
      advance.version.request = create := by
  have hmain : m.FreshFor [.request (.createVersion gameId create draw.versionId draw.now)] →
      answered (m.server.createVersion m.authed gameId create draw.versionId draw.now).2.1 =
        some advance →
      advance.version ∈ (m.run [.request (.createVersion gameId create draw.versionId
        draw.now)]).server.db.listVersions m.device.accountId gameId ∧
      advance.version.request = create := by
    intro hfresh hadv
    change _ ∈ (m.server.createVersion m.authed gameId create draw.versionId
      draw.now).1.db.listVersions _ _ ∧ _
    rcases Server.createVersion_cases sound m.authed gameId draw.now hfresh.1.1 with
      ⟨e, heq⟩ | ⟨-, -, -, -, adv, hadv', heq⟩
    · rw [heq] at hadv
      cases hadv
    · rw [heq] at hadv ⊢
      obtain rfl := Option.some.inj hadv
      have hversion : adv.version =
          m.server.newVersion m.device.accountId gameId create draw.versionId draw.now := by
        rw [hadv', Advance.version_ite]
        rfl
      rw [hversion]
      exact ⟨Server.newVersion_mem _ _ _ _ _ _, rfl⟩
  unfold postVersion at fresh hreply ⊢
  cases fault with
  | post => cases hreply
  | postReply => cases hreply
  | none => exact hmain fresh hreply
  | head => exact hmain fresh hreply
  | put => exact hmain fresh hreply
  | putReply => exact hmain fresh hreply

/-- **An answered upload is stored**, with everything the request said. -/
theorem uploadVersion_stored (sound : m.server.Sound)
    (fresh : m.FreshFor (uploadVersion m fault gameId create archivePath draw).1)
    {advance : Advance}
    (hreply : (uploadVersion m fault gameId create archivePath draw).2 = some advance) :
    advance.version ∈ (m.run (uploadVersion m fault gameId create archivePath
        draw).1).server.db.listVersions m.device.accountId gameId ∧
      advance.version.request = create := by
  obtain ⟨puts, -, heq | heq⟩ := uploadVersion_cases m fault gameId create archivePath draw
  · rw [heq] at hreply
    cases hreply
  · rw [heq, Machine.freshFor_append] at fresh
    rw [heq] at hreply ⊢
    obtain ⟨hsound, -, hacc⟩ := Machine.run_sound sound fresh.1
    rw [Machine.run_append, ← hacc]
    exact postVersion_stored hsound fresh.2 hreply

/-- The requests of an upload get through.  A `PUT` cannot be lost when the object is
there already: none is sent. -/
def Fault.delivers (present : Bool) : Fault → Bool
  | .none => true
  | .put | .putReply => present
  | .head | .post | .postReply => false

/-- When the device hears the answer to its version request. -/
theorem postVersion_answered_iff (sound : m.server.Sound)
    (fresh : m.FreshFor (postVersion m fault gameId create draw).1) :
    (∃ advance, (postVersion m fault gameId create draw).2 = some advance) ↔
      fault ≠ .post ∧ fault ≠ .postReply ∧ m.server.blobExists create.blobHash = true ∧
        m.server.Accepts m.device.accountId gameId create := by
  have hmain : m.FreshFor [.request (.createVersion gameId create draw.versionId draw.now)] →
      ((∃ advance, answered (m.server.createVersion m.authed gameId create draw.versionId
          draw.now).2.1 = some advance) ↔
        m.server.blobExists create.blobHash = true ∧
          m.server.Accepts m.device.accountId gameId create) := by
    rintro ⟨⟨hparent, hnew⟩, -⟩
    have hok : (∃ advance, (m.server.createVersion m.authed gameId create draw.versionId
        draw.now).2.1 = .ok advance) ↔ m.server.blobExists create.blobHash = true ∧
          m.server.Accepts m.device.accountId gameId create :=
      Server.createVersion_ok_iff sound hparent hnew
    rw [← hok]
    cases (m.server.createVersion m.authed gameId create draw.versionId draw.now).2.1 with
    | ok advance => simp [answered]
    | error e => simp [answered]
  unfold postVersion at fresh ⊢
  cases fault with
  | post => simp
  | postReply => simp
  | none | head | put | putReply =>
      simp only [ne_eq, reduceCtorEq, not_false_eq_true, true_and]
      exact hmain fresh

/-- **When an upload is answered**, in terms of the state before it. -/
theorem uploadVersion_answered_iff (sound : m.server.Sound)
    (fresh : m.FreshFor (uploadVersion m fault gameId create archivePath draw).1) :
    (∃ advance, (uploadVersion m fault gameId create archivePath draw).2 = some advance) ↔
      fault.delivers (m.server.blobExists create.blobHash) = true ∧
      (m.server.blobExists create.blobHash = true ∨
        ∃ body, m.device.cache archivePath = some body ∧
          Blake3.ofArchive body = create.blobHash) ∧
      m.server.Accepts m.device.accountId gameId create := by
  unfold uploadVersion at fresh ⊢
  by_cases hhead : fault = .head
  · simp [hhead, Fault.delivers]
  rw [if_neg hhead] at fresh ⊢
  by_cases hex : m.server.blobExists create.blobHash = true
  · rw [if_pos hex] at fresh ⊢
    rw [postVersion_answered_iff sound fresh, hex]
    cases fault <;> simp_all [Fault.delivers]
  · rw [if_neg hex] at fresh ⊢
    have hnot : m.server.blobExists create.blobHash = false := by simpa using hex
    rw [hnot]
    cases hbody : m.device.cache archivePath with
    | none => simp
    | some body =>
        simp only [hbody] at fresh ⊢
        by_cases hput : fault = .put
        · simp [hput, Fault.delivers]
        rw [if_neg hput] at fresh ⊢
        by_cases hputReply : fault = .putReply
        · simp [hputReply, Fault.delivers]
        rw [if_neg hputReply] at fresh ⊢
        by_cases hhash : Blake3.ofArchive body = create.blobHash
        · have hok : (m.server.blobPut create.blobHash body draw.now).2 = .ok false := by
            simp [Server.blobPut, hhash, hnot]
          have hstored : (m.apply (.request (.blobPut create.blobHash body
              draw.now))).server.blobExists create.blobHash = true := by
            have hobj := (Server.blobPut_ok hok).1
            exact Option.isSome_iff_exists.mpr ⟨body, hobj⟩
          simp only [hok] at fresh ⊢
          rw [postVersion_answered_iff (Server.blobPut_sound sound) fresh.2, hstored]
          have haccepts : (m.apply (.request (.blobPut create.blobHash body
              draw.now))).server.Accepts m.device.accountId gameId create ↔
              m.server.Accepts m.device.accountId gameId create :=
            Server.blobPut_accepts_iff
          rw [show (m.apply (.request (.blobPut create.blobHash body draw.now))).device =
            m.device from rfl, haccepts]
          cases fault <;> simp_all [Fault.delivers]
        · have herr : (m.server.blobPut create.blobHash body draw.now).2 =
              .error (.hashMismatch create.blobHash (Blake3.ofArchive body)) := by
            simp [Server.blobPut, hhash]
          simp only [herr]
          simp [hhash]

end Upload

/-! ### What every stored version satisfies -/

section Each

/-- The property of a request stays true when its history grows. -/
def Grows (P : List Version → CreateVersion → Prop) : Prop :=
  ∀ history history' req, DistinctIds history → DistinctIds history' →
    (∀ v ∈ history, v ∈ history') → P history req → P history' req

/-- Every version was stored by a request with this property. -/
structure Server.Each (P : List Version → CreateVersion → Prop) (s : Server) : Prop where
  sound : s.Sound
  versions : ∀ account gameId, ∀ v ∈ s.db.listVersions account gameId,
    P (s.db.listVersions account gameId) v.request

variable {P : List Version → CreateVersion → Prop} {s s' : Server} {m : Machine}
  {gameId : GameId} {create : CreateVersion}

/-- A property of a request, on a server that has only gained. -/
theorem Grows.le (grows : Grows P) (sound : s.Sound) (sound' : s'.Sound) (hle : s.Le s')
    {account : AccountId} (h : P (s.db.listVersions account gameId) create) :
    P (s'.db.listVersions account gameId) create :=
  grows _ _ _ (sound.wf.distinctIds account gameId) (sound'.wf.distinctIds account gameId)
    (fun _ hv => hle.listVersions hv) h

/-- Only the versions matter. -/
theorem Server.Each.of_versions (h : s.Each P) (sound : s'.Sound)
    (hversions : s'.db.versions = s.db.versions) : s'.Each P := by
  refine ⟨sound, fun account gameId => ?_⟩
  rw [Db.listVersions, Db.gameRows, hversions]
  exact h.versions account gameId

/-- A version that is good for its history leaves every version good. -/
theorem Server.Each.createVersion (h : s.Each P) (grows : Grows P) {auth : Authed}
    {id : VersionId} {now : Timestamp} (hfresh : create.parent ≠ some id)
    (good : P (s.db.listVersions auth.accountId gameId) create) :
    (s.createVersion auth gameId create id now).1.Each P := by
  have hle : s.Le (s.createVersion auth gameId create id now).1 :=
    Server.createVersion_le h.sound hfresh
  rcases Server.createVersion_cases h.sound auth gameId now hfresh with
    ⟨e, heq⟩ | ⟨-, sound', -, -, advance, -, heq⟩
  · rw [heq]
    exact h
  · rw [heq] at hle ⊢
    refine ⟨sound', fun account gameId' v hv => ?_⟩
    obtain ⟨row, hrow, hg, hacc, rfl⟩ := Db.mem_listVersions.mp hv
    rcases List.mem_append.mp hrow with hrow | hrow
    · exact grows.le h.sound sound' hle (h.versions account gameId' _
        (Db.mem_listVersions.mpr ⟨row, hrow, hg, hacc, rfl⟩))
    · obtain rfl := List.mem_singleton.mp hrow
      obtain rfl : gameId = gameId' := hg
      obtain rfl : auth.accountId = account := hacc
      exact grows.le h.sound sound' hle good

/-- The action uploads only what has the property. -/
def Machine.GoodAction (P : List Version → CreateVersion → Prop) (m : Machine) : Action → Prop
  | .request (.createVersion gameId req _ _) =>
      P (m.server.db.listVersions m.device.accountId gameId) req
  | _ => True

/-- What holds of every version of a server is kept by an action, if the action's own version
satisfies it and further versions do not spoil it. -/
theorem Server.Each.apply (h : m.server.Each P) (grows : Grows P) {a : Action}
    (fresh : m.FreshAction a) (good : m.GoodAction P a) : (m.apply a).server.Each P := by
  cases a with
  | write w => exact h
  | request r =>
      cases r with
      | blobPut hash body now =>
          exact h.of_versions (Server.blobPut_sound h.sound) Server.blobPut_versions
      | createVersion gameId req id now => exact h.createVersion grows fresh.1 good
      | resolve gameId winner keepBoth id now =>
          exact h.of_versions (Server.resolve_sound h.sound) (Server.resolve_versions h.sound)

/-- **Actions that upload one such request.** -/
theorem Server.Each.run (h : m.server.Each P) (grows : Grows P) {as : List Action}
    (fresh : m.FreshFor as) (good : P (m.server.db.listVersions m.device.accountId gameId) create)
    (hcreate : ∀ g req id now, Action.request (.createVersion g req id now) ∈ as →
      g = gameId ∧ req = create) : (m.run as).server.Each P := by
  induction as generalizing m with
  | nil => exact h
  | cons a as ih =>
      obtain ⟨hsound, hle, hacc⟩ := Machine.run_sound h.sound
        (show m.FreshFor [a] from ⟨fresh.1, trivial⟩)
      have hgood : m.GoodAction P a := by
        unfold Machine.GoodAction
        split
        · rename_i g req id now
          obtain ⟨rfl, rfl⟩ := hcreate g req id now List.mem_cons_self
          exact good
        · trivial
      refine ih (h.apply grows fresh.1 hgood) fresh.2 ?_ fun g req id now hmem =>
        hcreate g req id now (List.mem_cons_of_mem _ hmem)
      rw [show (m.apply a).device.accountId = m.device.accountId from hacc]
      exact grows.le h.sound hsound hle good

/-- The lemma above along an upload: only the version it posts has to be looked at. -/
theorem Server.Each.uploadVersion (h : m.server.Each P) (grows : Grows P) {fault : Fault}
    {archivePath : Blake3Hash} {draw : Draw}
    (fresh : m.FreshFor (uploadVersion m fault gameId create archivePath draw).1)
    (good : P (m.server.db.listVersions m.device.accountId gameId) create) :
    (m.run (Savr.uploadVersion m fault gameId create archivePath draw).1).server.Each P := by
  refine h.run grows fresh good fun g req id now hmem => ?_
  rcases mem_uploadVersion hmem with ⟨body, heq⟩ | heq
  · cases heq
  · cases heq
    exact ⟨rfl, rfl⟩

end Each

/-! ### Draining the outbox -/

section Retry

variable {m : Machine} {now : Timestamp} {item : OutboxRow} {env : RetryEnv}

/-- The upload of an outbox entry. -/
def OutboxPayload.upload (m : Machine) (p : OutboxPayload) (env : RetryEnv) :
    List Action × Option Advance :=
  uploadVersion m env.fault p.gameId p.createVersion p.blobHash env.draw

/-- **Everything one entry of a drain can do.** -/
theorem retryItem_cases (m : Machine) (now : Timestamp) (item : OutboxRow) (env : RetryEnv) :
    (item.payload = none ∧ retryItem m now item env = [.write (.removeOutbox item.id)]) ∨
    ∃ p, item.payload = some p ∧
      ((∃ advance, (p.upload m env).2 = some advance ∧
          ∃ marks : List Write, (∀ w ∈ marks, ∃ t, w = .setLastBackupAt t) ∧
          retryItem m now item env =
            (p.upload m env).1 ++ (Action.write (.setLocalHead p.gameId advance.version.id) ::
              marks.map Action.write) ++
            [.write (.removeOutbox item.id), .write (.removeArchive p.blobHash)]) ∨
        ((p.upload m env).2 = none ∧
          ∃ next, retryItem m now item env =
            (p.upload m env).1 ++ [.write (.bumpOutboxAttempt item.id next)])) := by
  unfold retryItem OutboxPayload.upload
  cases hp : item.payload with
  | none => exact Or.inl ⟨rfl, rfl⟩
  | some p =>
      refine Or.inr ⟨p, rfl, ?_⟩
      cases hreply : (uploadVersion m env.fault p.gameId p.createVersion p.blobHash env.draw).2 with
      | none =>
          exact Or.inr ⟨rfl, now + backoffDelay item.attempts * 10 ^ 9, by simp only [hreply]⟩
      | some advance =>
          refine Or.inl ⟨advance, rfl, ?_⟩
          cases advance with
          | fastForward v =>
              exact ⟨[.setLastBackupAt env.doneAt], by simp, by simp [hreply, Advance.version]⟩
          | conflict head incoming => exact ⟨[], by simp, by simp [hreply, Advance.version]⟩

/-- What is left of the state after an answered entry. -/
theorem settleRetry_run (m : Machine) (id : Uuid) (hash : Blake3Hash) (gameId : GameId)
    (head : VersionId) {marks : List Write}
    (hmarks : ∀ w ∈ marks, ∃ at_, w = Write.setLastBackupAt at_) :
    ∃ at_, m.run ((Action.write (.setLocalHead gameId head) :: marks.map Action.write) ++
        [.write (.removeOutbox id), .write (.removeArchive hash)]) =
      ⟨{ m.device with
          state := { (m.device.state.setLocalHead gameId head).removeOutbox id with
            lastBackupAt := at_ }
          cache := Function.update m.device.cache hash none }, m.server⟩ := by
  have hrun : ∀ m : Machine, ∃ at_, m.run (marks.map Action.write) =
      ⟨{ m.device with state := { m.device.state with lastBackupAt := at_ } }, m.server⟩ := by
    induction marks with
    | nil => exact fun m => ⟨m.device.state.lastBackupAt, rfl⟩
    | cons w marks ih =>
        intro m
        obtain ⟨at_, rfl⟩ := hmarks w (by simp)
        obtain ⟨at', hrest⟩ := ih (fun w hw => hmarks w (by simp [hw]))
          (m.apply (.write (.setLastBackupAt at_)))
        exact ⟨at', hrest⟩
  obtain ⟨at_, hmarked⟩ := hrun (m.apply (.write (.setLocalHead gameId head)))
  refine ⟨at_, ?_⟩
  rw [Machine.run_append]
  change (((m.apply (.write (.setLocalHead gameId head))).run (marks.map Action.write)).apply
    (.write (.removeOutbox id))).apply (.write (.removeArchive hash)) = _
  rw [hmarked]
  rfl

namespace OutboxPayload

theorem upload_requests (m : Machine) (p : OutboxPayload) (env : RetryEnv) :
    ∀ a ∈ (p.upload m env).1, ∃ r, a = Action.request r :=
  uploadVersion_requests _ _ _ _ _ _

theorem upload_device (m : Machine) (p : OutboxPayload) (env : RetryEnv) :
    (m.run (p.upload m env).1).device = m.device :=
  Machine.run_requests_device (p.upload_requests m env)

/-- The machine after an answered entry. -/
theorem run_answered (m : Machine) (p : OutboxPayload) (env : RetryEnv) (id : Uuid)
    (head : VersionId) {marks : List Write}
    (hmarks : ∀ w ∈ marks, ∃ at_, w = Write.setLastBackupAt at_) :
    ∃ at_, m.run ((p.upload m env).1 ++
        (Action.write (.setLocalHead p.gameId head) :: marks.map Action.write) ++
        [.write (.removeOutbox id), .write (.removeArchive p.blobHash)]) =
      ⟨{ m.device with
          state := { (m.device.state.setLocalHead p.gameId head).removeOutbox id with
            lastBackupAt := at_ }
          cache := Function.update m.device.cache p.blobHash none },
        (m.run (p.upload m env).1).server⟩ := by
  obtain ⟨at_, hrun⟩ :=
    settleRetry_run (m.run (p.upload m env).1) id p.blobHash p.gameId head hmarks
  refine ⟨at_, ?_⟩
  rw [List.append_assoc, Machine.run_append, hrun, p.upload_device]

/-- The machine after an entry without an answer. -/
theorem run_unanswered (m : Machine) (p : OutboxPayload) (env : RetryEnv) (id : Uuid)
    (next : Timestamp) :
    m.run ((p.upload m env).1 ++ [.write (.bumpOutboxAttempt id next)]) =
      ⟨(Write.bumpOutboxAttempt id next).apply m.device, (m.run (p.upload m env).1).server⟩ := by
  rw [Machine.run_append]
  change Machine.mk ((Write.bumpOutboxAttempt id next).apply (m.run (p.upload m env).1).device) _ =
    _
  rw [p.upload_device]

end OutboxPayload

end Retry

/-! ### Backups -/

section Backup

variable {m : Machine} {job : BackupJob} {env : BackupEnv} {p : Packed}

/-- The archive of a backup gets its name in the cache. -/
def Packed.pack (p : Packed) : Action :=
  .write (.cacheArchive p.create.blobHash p.archive)

/-- The upload of a backup sends its archive and its version, and nothing else. -/
theorem Packed.mem_upload {gameId : GameId} (p : Packed) {a : Action}
    (ha : a ∈ (p.upload m gameId env).1) :
    (∃ body, a = .request (.blobPut p.create.blobHash body env.draw.now)) ∨
      a = .request (.createVersion gameId p.create env.draw.versionId env.draw.now) := by
  unfold Packed.upload at ha
  split at ha
  · exact mem_uploadVersion ha
  · cases ha

theorem Packed.upload_requests (m : Machine) (gameId : GameId) (p : Packed) (env : BackupEnv) :
    ∀ a ∈ (p.upload m gameId env).1, ∃ r, a = Action.request r := by
  intro a ha
  rcases p.mem_upload ha with ⟨body, rfl⟩ | rfl
  · exact ⟨_, rfl⟩
  · exact ⟨_, rfl⟩

/-- Packing and uploading leaves the local state alone. -/
theorem Packed.upload_state (m : Machine) (gameId : GameId) (p : Packed) (env : BackupEnv) :
    (m.run (p.pack :: (p.upload (m.apply p.pack) gameId env).1)).device.state =
      m.device.state := by
  rw [Machine.run_cons, Machine.run_requests_device (p.upload_requests _ _ _)]
  rfl

/-- An upload that is answered has stored the version it answers. -/
theorem Packed.upload_stored {gameId : GameId} (sound : m.server.Sound)
    (fresh : m.FreshFor (p.upload m gameId env).1) {advance : Advance}
    (hreply : (p.upload m gameId env).2 = some advance) :
    advance.version ∈ (m.run (p.upload m gameId env).1).server.db.listVersions
        m.device.accountId gameId ∧
      advance.version.request = p.create := by
  unfold Packed.upload at fresh hreply ⊢
  split at hreply
  · rename_i hauth
    rw [if_pos hauth] at fresh ⊢
    exact uploadVersion_stored sound fresh hreply
  · cases hreply

/-- **When a packed backup is answered**: the device is paired, the requests get
through, and the server accepts the version. -/
theorem Packed.upload_answered_iff {gameId : GameId} (sound : m.server.Sound)
    (hhash : p.create.blobHash = Blake3.ofArchive p.archive)
    (fresh : (m.apply p.pack).FreshFor (p.upload (m.apply p.pack) gameId env).1) :
    (∃ advance, (p.upload (m.apply p.pack) gameId env).2 = some advance) ↔
      env.authenticated = true ∧
      env.fault.delivers (m.server.blobExists p.create.blobHash) = true ∧
      m.server.Accepts m.device.accountId gameId p.create := by
  unfold Packed.upload at fresh ⊢
  by_cases hauth : env.authenticated = true
  · rw [if_pos hauth] at fresh ⊢
    have hcached : (m.apply p.pack).device.cache p.create.blobHash = some p.archive := by
      simp [Packed.pack, Write.apply]
    rw [uploadVersion_answered_iff (m := m.apply p.pack) sound fresh]
    refine ⟨fun h => ⟨hauth, h.1, h.2.2⟩, fun h => ⟨h.2.1, Or.inr ?_, h.2.2⟩⟩
    exact ⟨p.archive, hcached, hhash.symm⟩
  · rw [if_neg hauth]
    exact iff_of_false (by simp) fun h => hauth h.1

theorem runBackup_of_none (hp : packBackup m.device job env = none) :
    runBackup m job env = (.noChange, []) := by
  rw [runBackup, hp]

/-- **Everything `run_backup` can do**: nothing, or pack and upload, and then record
the answer or queue. -/
theorem runBackup_cases (m : Machine) (job : BackupJob) (env : BackupEnv) :
    (packBackup m.device job env = none ∧ runBackup m job env = (.noChange, [])) ∨
    ∃ p, packBackup m.device job env = some p ∧
      ((∃ advance, (p.upload (m.apply p.pack) job.gameId env).2 = some advance ∧
          (runBackup m job env).2 =
            p.pack :: (p.upload (m.apply p.pack) job.gameId env).1 ++
              settleBackup m.device job.gameId p env advance) ∨
        ((p.upload (m.apply p.pack) job.gameId env).2 = none ∧
          (runBackup m job env).2 =
            p.pack :: (p.upload (m.apply p.pack) job.gameId env).1 ++
              queueBackup job.gameId p env)) := by
  cases hp : packBackup m.device job env with
  | none => exact Or.inl ⟨rfl, runBackup_of_none hp⟩
  | some p =>
      refine Or.inr ⟨p, rfl, ?_⟩
      unfold runBackup
      rw [hp]
      simp only [← Packed.pack.eq_def]
      cases hreply : (p.upload (m.apply p.pack) job.gameId env).2 with
      | none => exact Or.inr ⟨rfl, by simp⟩
      | some advance => exact Or.inl ⟨advance, rfl, by simp⟩

omit [Blake3] in
/-- Both ways of recording an answer point the snapshot at the stored version,
clear the flag, and drop the archive. -/
theorem settleBackup_eq (d : Device) (gameId : GameId) (p : Packed) (env : BackupEnv)
    (advance : Advance) :
    ∃ counters : List Write,
      (∀ w ∈ counters, (∃ g n, w = .setDiffcount g n) ∨ ∃ t, w = .setLastBackupAt t) ∧
      settleBackup d gameId p env advance =
        [.write (.putSnapshot gameId p.create.files p.takenAt (some advance.version.id)),
         .write (.setUnconfirmed gameId false)] ++ counters.map Action.write ++
        [.write (.removeArchive p.create.blobHash)] := by
  cases advance with
  | fastForward version =>
      exact ⟨[.setDiffcount gameId (nextDiffcount p.create.kind (d.priorDiffs gameId)),
        .setLastBackupAt env.doneAt], by simp, rfl⟩
  | conflict head incoming => exact ⟨[], by simp, rfl⟩

end Backup

end Savr
