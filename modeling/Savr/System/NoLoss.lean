import Savr.System.World

/-!
# No captured change is lost

Once a file set has become the local diff base, a later backup will not capture it
again; so from that moment on a durable copy has to exist: an outbox entry with its
archive in the blob cache, or a version on the server.

The base advances, and archives and outbox rows disappear, in different operations.
`Durable` is what links them; each action keeps it under its own condition, and each
operation meets the conditions in the order of its actions, so that every prefix of
every operation keeps it.

Distinct archives are assumed to have distinct digests: the archive an operation
removes from the cache is then needed by no other outbox entry.
-/

namespace Savr

open LabelledRun Script

section General

/-- The file set an action makes the local base of a game. -/
def Action.stored : Action → List (GameId × List FileEntry)
  | .write (.putSnapshot gameId files _ _) => [(gameId, files)]
  | _ => []

/-- Every file set a device ever stored as a base, along a run. -/
def storedBases (d : ℕ) (trace : List Event) : List (GameId × List FileEntry) :=
  trace.flatMap fun ev => if ev.device = d then ev.performed.flatMap Action.stored else []

variable [Blake3]

/-- Some outbox entry declares the files, and its archive is in the cache; or some
version of the game on the server declares them. -/
def Machine.Declared (m : Machine) (gameId : GameId) (files : List FileEntry) : Prop :=
  (∃ row ∈ m.device.state.outbox, ∃ p, row.payload = some p ∧ p.gameId = gameId ∧
    p.createVersion.files = files ∧
    ∃ a, m.device.cache p.blobHash = some a ∧ Blake3.ofArchive a = p.blobHash) ∨
  ∃ v ∈ m.server.db.listVersions m.device.accountId gameId, v.files = files

/-- The payload names an archive that was packed for it. -/
def OutboxPayload.Genuine (p : OutboxPayload) : Prop :=
  ∃ a : Archive, Blake3.ofArchive a = p.blobHash ∧ p.createVersion.blobHash = p.blobHash ∧
    a.metadata.gameId = p.gameId ∧ a.metadata.files = p.createVersion.files

/-- A device and the server, with the bases the device has stored so far. -/
structure Tracked where
  machine : Machine
  bases : List (GameId × List FileEntry)

/-- An action, and the versions it stores. -/
def Tracked.apply (t : Tracked) (a : Action) : Tracked where
  machine := t.machine.apply a
  bases := t.bases ++ a.stored

theorem Tracked.run_eq (t : Tracked) (as : List Action) :
    Script.run Tracked.apply t as = ⟨t.machine.run as, t.bases ++ as.flatMap Action.stored⟩ := by
  induction as generalizing t with
  | nil => simp
  | cons a as ih => simp [ih, Tracked.apply]

/-- **The invariant.** Every base that was ever stored is declared by a version of the
server, or by an entry of the outbox whose archive is cached. -/
structure Durable (t : Tracked) : Prop where
  sound : t.machine.server.Sound
  outboxIds : (t.machine.device.state.outbox.map OutboxRow.id).Nodup
  genuine : ∀ row ∈ t.machine.device.state.outbox, ∀ p, row.payload = some p → p.Genuine
  declared : ∀ gameId files, (gameId, files) ∈ t.bases → t.machine.Declared gameId files
  /-- The current base is one of those stored. -/
  current : ∀ gameId snap, t.machine.device.state.snapshots gameId = some snap →
    (gameId, snap.files) ∈ t.bases

/-! ### One action -/

section Action

variable {t : Tracked}

/-- What is declared stays declared while the outbox and the cache stay and the
server grows. -/
theorem Machine.Declared.mono {m m' : Machine} {gameId : GameId} {files : List FileEntry}
    (h : m.Declared gameId files)
    (houtbox : ∀ row ∈ m.device.state.outbox, ∀ p, row.payload = some p →
      ∀ a, m.device.cache p.blobHash = some a → Blake3.ofArchive a = p.blobHash →
      (∃ row' ∈ m'.device.state.outbox, row'.payload = some p ∧
        ∃ a', m'.device.cache p.blobHash = some a' ∧ Blake3.ofArchive a' = p.blobHash) ∨
      ∃ v ∈ m'.server.db.listVersions m'.device.accountId p.gameId,
        v.files = p.createVersion.files)
    (hacc : m'.device.accountId = m.device.accountId) (hle : m.server.Le m'.server) :
    m'.Declared gameId files := by
  rcases h with ⟨row, hrow, p, hp, rfl, rfl, a, ha, hah⟩ | ⟨v, hv, hfiles⟩
  · rcases houtbox row hrow p hp a ha hah with ⟨row', hrow', hp', a', ha', hah'⟩ | hstored
    · exact Or.inl ⟨row', hrow', p, hp', rfl, rfl, a', ha', hah'⟩
    · exact Or.inr hstored
  · refine Or.inr ⟨v, ?_, hfiles⟩
    rw [hacc]
    exact hle.listVersions hv

/-- An action that leaves outbox, cache and snapshots alone. -/
theorem Durable.frame (h : Durable t) {a : Action} (fresh : t.machine.FreshAction a)
    (hstored : a.stored = [])
    (houtbox : (t.machine.apply a).device.state.outbox = t.machine.device.state.outbox)
    (hcache : (t.machine.apply a).device.cache = t.machine.device.cache)
    (hsnap : ∀ g snap, (t.machine.apply a).device.state.snapshots g = some snap →
      ∃ snap', t.machine.device.state.snapshots g = some snap' ∧ snap'.files = snap.files) :
    Durable (t.apply a) := by
  obtain ⟨hsound, hle, hacc⟩ := Machine.run_sound h.sound
    (show t.machine.FreshFor [a] from ⟨fresh, trivial⟩)
  refine ⟨hsound, ?_, ?_, ?_, ?_⟩
  · change ((t.machine.apply a).device.state.outbox.map _).Nodup
    rw [houtbox]
    exact h.outboxIds
  · intro row hrow
    change row ∈ (t.machine.apply a).device.state.outbox at hrow
    rw [houtbox] at hrow
    exact h.genuine row hrow
  · intro g files hmem
    have hmem' : (g, files) ∈ t.bases := by simpa [Tracked.apply, hstored] using hmem
    -- a base held by a queued row is held by the same row and the same cached archive
    refine (h.declared g files hmem').mono ?_ hacc hle
    intro row hrow p hp a' ha' hah'
    refine Or.inl ⟨row, ?_, hp, a', ?_, hah'⟩
    · change row ∈ (t.machine.apply a).device.state.outbox
      rw [houtbox]
      exact hrow
    · change (t.machine.apply a).device.cache p.blobHash = some a'
      rw [hcache]
      exact ha'
  · intro g snap hs
    obtain ⟨snap', hs', hfiles⟩ := hsnap g snap hs
    rw [← hfiles]
    exact List.mem_append_left _ (h.current g snap' hs')

theorem Durable.request (h : Durable t) {r : Request} (fresh : t.machine.FreshAction (.request r)) :
    Durable (t.apply (.request r)) :=
  h.frame fresh rfl rfl rfl fun _ snap hs => ⟨snap, hs, rfl⟩

theorem Durable.setUnconfirmed (h : Durable t) (g : GameId) (b : Bool) :
    Durable (t.apply (.write (.setUnconfirmed g b))) :=
  h.frame trivial rfl rfl rfl fun _ snap hs => ⟨snap, hs, rfl⟩

theorem Durable.setDiffcount (h : Durable t) (g : GameId) (n : ℕ) :
    Durable (t.apply (.write (.setDiffcount g n))) :=
  h.frame trivial rfl rfl rfl fun _ snap hs => ⟨snap, hs, rfl⟩

theorem Durable.setLastBackupAt (h : Durable t) (at_ : Timestamp) :
    Durable (t.apply (.write (.setLastBackupAt at_))) :=
  h.frame trivial rfl rfl rfl fun _ snap hs => ⟨snap, hs, rfl⟩

/-- Moving the head keeps the files. -/
theorem Durable.setLocalHead (h : Durable t) (g : GameId) (head : VersionId) :
    Durable (t.apply (.write (.setLocalHead g head))) := by
  refine h.frame trivial rfl rfl rfl fun g' snap hs => ?_
  change Function.update t.machine.device.state.snapshots g _ g' = some snap at hs
  by_cases hg : g' = g
  · subst hg
    rw [Function.update_self] at hs
    obtain ⟨snap', hs', rfl⟩ := Option.map_eq_some_iff.mp hs
    exact ⟨snap', hs', rfl⟩
  · rw [Function.update_of_ne hg] at hs
    exact ⟨snap, hs, rfl⟩

/-- Packing an archive. -/
theorem Durable.cacheArchive (h : Durable t) (a : Archive) :
    Durable (t.apply (.write (.cacheArchive (Blake3.ofArchive a) a))) := by
  refine ⟨h.sound, h.outboxIds, h.genuine, fun g files hmem => ?_, fun g snap hs => ?_⟩
  · have hmem' : (g, files) ∈ t.bases := by simpa [Tracked.apply, Action.stored] using hmem
    refine (h.declared g files hmem').mono ?_ rfl (Server.Le.refl _)
    intro row hrow p hp a' ha' hah'
    refine Or.inl ⟨row, hrow, hp, ?_⟩
    by_cases hhash : p.blobHash = Blake3.ofArchive a
    · exact ⟨a, by simp [Tracked.apply, Write.apply, hhash], hhash.symm⟩
    · exact ⟨a', by simpa [Tracked.apply, Write.apply, hhash] using ha', hah'⟩
  · exact List.mem_append_left _ (h.current g snap hs)

/-- Queueing an entry for an archive that was packed for it. -/
theorem Durable.enqueueOutbox (h : Durable t) {id : Uuid} {p : OutboxPayload}
    (fresh : ∀ r ∈ t.machine.device.state.outbox, r.id ≠ id) (genuine : p.Genuine)
    (at_ : Timestamp) :
    Durable (t.apply (.write (.enqueueOutbox id p at_))) ∧
      ∃ row ∈ (t.apply (.write (.enqueueOutbox id p at_))).machine.device.state.outbox,
        row.payload = some p := by
  have hfilter : t.machine.device.state.outbox.filter (fun r => decide (r.id ≠ id)) =
      t.machine.device.state.outbox := by
    rw [List.filter_eq_self]
    intro r hr
    simpa using fresh r hr
  have houtbox : ∃ row, row.id = id ∧ row.payload = some p ∧
      (t.apply (.write (.enqueueOutbox id p at_))).machine.device.state.outbox =
        t.machine.device.state.outbox ++ [row] := by
    refine ⟨⟨id, some p, ((t.machine.device.state.outbox.find? fun r => r.id = id).map
      OutboxRow.attempts).getD 0, some at_⟩, rfl, rfl, ?_⟩
    change t.machine.device.state.outbox.filter (fun r => decide (r.id ≠ id)) ++ _ = _
    rw [hfilter]
  obtain ⟨row, hid, hpayload, houtbox⟩ := houtbox
  refine ⟨⟨h.sound, ?_, ?_, fun g files hmem => ?_, fun g snap hs => ?_⟩, row, ?_, hpayload⟩
  · rw [houtbox, List.map_append, List.nodup_append]
    refine ⟨h.outboxIds, by simp, ?_⟩
    intro x hx y hy
    obtain ⟨r, hr, rfl⟩ := List.mem_map.mp hx
    obtain rfl : y = row.id := by simpa using hy
    rw [hid]
    exact fresh r hr
  · rw [houtbox]
    intro r hr q hq
    rcases List.mem_append.mp hr with hr | hr
    · exact h.genuine r hr q hq
    · obtain rfl := List.mem_singleton.mp hr
      obtain rfl := Option.some.inj (hpayload.symm.trans hq)
      exact genuine
  · have hmem' : (g, files) ∈ t.bases := by simpa [Tracked.apply, Action.stored] using hmem
    refine (h.declared g files hmem').mono ?_ rfl (Server.Le.refl _)
    intro r hr q hq a ha hah
    exact Or.inl ⟨r, by rw [houtbox]; exact List.mem_append_left _ hr, hq, a, ha, hah⟩
  · exact List.mem_append_left _ (h.current g snap hs)
  · rw [houtbox]
    simp

/-- A new base has to be declared already. -/
theorem Durable.putSnapshot (h : Durable t) {g : GameId} {files : List FileEntry}
    (declared : t.machine.Declared g files) (takenAt : Timestamp) (head : Option VersionId) :
    Durable (t.apply (.write (.putSnapshot g files takenAt head))) := by
  refine ⟨h.sound, h.outboxIds, h.genuine, fun g' files' hmem => ?_, fun g' snap hs => ?_⟩
  · rcases List.mem_append.mp hmem with hmem | hmem
    · exact h.declared g' files' hmem
    · obtain ⟨rfl, rfl⟩ : g' = g ∧ files' = files := by simpa [Action.stored] using hmem
      exact declared
  · change Function.update t.machine.device.state.snapshots g _ g' = some snap at hs
    by_cases hg : g' = g
    · subst hg
      rw [Function.update_self] at hs
      obtain rfl := Option.some.inj hs
      exact List.mem_append_right _ (by simp [Action.stored])
    · rw [Function.update_of_ne hg] at hs
      exact List.mem_append_left _ (h.current g' snap hs)

/-- Rescheduling an entry keeps its payload. -/
theorem Durable.bumpOutboxAttempt (h : Durable t) (id : Uuid) (next : Timestamp) :
    Durable (t.apply (.write (.bumpOutboxAttempt id next))) := by
  have hids : ((t.apply (.write (.bumpOutboxAttempt id next))).machine.device.state.outbox.map
      OutboxRow.id) = t.machine.device.state.outbox.map OutboxRow.id := by
    change (t.machine.device.state.outbox.map _).map _ = _
    rw [List.map_map]
    refine List.map_congr_left fun r _ => ?_
    simp only [Function.comp_apply]
    split <;> rfl
  refine ⟨h.sound, hids ▸ h.outboxIds, ?_, fun g files hmem => ?_, fun g snap hs => ?_⟩
  · intro r hr q hq
    obtain ⟨r₀, hr₀, rfl⟩ := List.mem_map.mp hr
    refine h.genuine r₀ hr₀ q ?_
    split at hq <;> exact hq
  · have hmem' : (g, files) ∈ t.bases := by simpa [Tracked.apply, Action.stored] using hmem
    refine (h.declared g files hmem').mono ?_ rfl (Server.Le.refl _)
    intro r hr q hq a ha hah
    refine Or.inl ⟨_, List.mem_map.mpr ⟨r, hr, rfl⟩, ?_, a, ha, hah⟩
    split <;> exact hq
  · exact List.mem_append_left _ (h.current g snap hs)

/-- An entry may go once a version declares what it declares. -/
theorem Durable.removeOutbox (h : Durable t) (id : Uuid)
    (stored : ∀ row ∈ t.machine.device.state.outbox, row.id = id → ∀ p, row.payload = some p →
      ∃ v ∈ t.machine.server.db.listVersions t.machine.device.accountId p.gameId,
        v.files = p.createVersion.files) :
    Durable (t.apply (.write (.removeOutbox id))) := by
  refine ⟨h.sound, h.outboxIds.sublist (List.filter_sublist.map _), ?_,
    fun g files hmem => ?_, fun g snap hs => ?_⟩
  · exact fun row hrow => h.genuine row (List.mem_of_mem_filter hrow)
  · have hmem' : (g, files) ∈ t.bases := by simpa [Tracked.apply, Action.stored] using hmem
    refine (h.declared g files hmem').mono ?_ rfl (Server.Le.refl _)
    intro row hrow p hp a ha hah
    by_cases hid : row.id = id
    · exact Or.inr (stored row hrow hid p hp)
    · exact Or.inl ⟨row, List.mem_filter.mpr ⟨hrow, by simpa using hid⟩, hp, a, ha, hah⟩
  · exact List.mem_append_left _ (h.current g snap hs)

/-- An archive may go once a version declares what was packed into it: by
injectivity of the digest, every entry that names it declares the same. -/
theorem Durable.removeArchive (inj : Function.Injective Blake3.ofArchive) (h : Durable t)
    {a : Archive} (stored : ∃ v ∈ t.machine.server.db.listVersions t.machine.device.accountId
      a.metadata.gameId, v.files = a.metadata.files) :
    Durable (t.apply (.write (.removeArchive (Blake3.ofArchive a)))) := by
  refine ⟨h.sound, h.outboxIds, h.genuine, fun g files hmem => ?_, fun g snap hs => ?_⟩
  · have hmem' : (g, files) ∈ t.bases := by simpa [Tracked.apply, Action.stored] using hmem
    refine (h.declared g files hmem').mono ?_ rfl (Server.Le.refl _)
    intro row hrow p hp a' ha' hah'
    by_cases hhash : p.blobHash = Blake3.ofArchive a
    · obtain ⟨b, hb, -, hgame, hfiles⟩ := h.genuine row hrow p hp
      obtain rfl : b = a := inj (hb.trans hhash)
      rw [hgame, hfiles] at stored
      exact Or.inr stored
    · refine Or.inl ⟨row, hrow, hp, a', ?_, hah'⟩
      simpa [Tracked.apply, Write.apply, hhash] using ha'
  · exact List.mem_append_left _ (h.current g snap hs)

end Action

/-! ### Whole operations -/

section Operation

variable {t : Tracked}

/-- Requests of the device keep the machine durable after each of them. -/
theorem Durable.requests (h : Durable t) {as : List Action}
    (hreq : ∀ a ∈ as, ∃ r, a = Action.request r) (fresh : t.machine.FreshFor as) :
    Always Tracked.apply (fun t' => Durable t') t as := by
  induction as generalizing t with
  | nil => simpa using h
  | cons a as ih =>
      obtain ⟨r, rfl⟩ := hreq a (by simp)
      rw [always_cons]
      exact ⟨h, ih (h.request fresh.1) (fun b hb => hreq b (by simp [hb])) fresh.2⟩

/-- Requests store no base. -/
theorem Tracked.run_requests (t : Tracked) {as : List Action}
    (hreq : ∀ a ∈ as, ∃ r, a = Action.request r) :
    Script.run Tracked.apply t as = ⟨t.machine.run as, t.bases⟩ := by
  have hstored : as.flatMap Action.stored = [] := by
    rw [List.flatMap_eq_nil_iff]
    intro a ha
    obtain ⟨r, rfl⟩ := hreq a ha
    rfl
  rw [Tracked.run_eq, hstored, List.append_nil]

/-- The bookkeeping after an answer: the version is there before the base moves to
its files and before the archive goes. -/
theorem Durable.settleBackup (inj : Function.Injective Blake3.ofArchive) (h : Durable t)
    {job : BackupJob} {env : BackupEnv} {p : Packed} {d : Device} {advance : Advance}
    (hhash : p.create.blobHash = Blake3.ofArchive p.archive)
    (hgame : p.archive.metadata.gameId = job.gameId)
    (hfiles : p.archive.metadata.files = p.create.files)
    (stored : ∃ v ∈ t.machine.server.db.listVersions t.machine.device.accountId job.gameId,
      v.files = p.create.files) :
    Always Tracked.apply (fun t' => Durable t') t
      (Savr.settleBackup d job.gameId p env advance) := by
  obtain ⟨counters, hcounters, heq⟩ := settleBackup_eq d job.gameId p env advance
  rw [heq, always_append]
  have hput := h.putSnapshot (Or.inr stored) p.takenAt (some advance.version.id)
  have hbefore : Always Tracked.apply (fun t' => Durable t' ∧
      t'.machine.server = t.machine.server ∧
      t'.machine.device.accountId = t.machine.device.accountId) t
      ([.write (.putSnapshot job.gameId p.create.files p.takenAt (some advance.version.id)),
        .write (.setUnconfirmed job.gameId false)] ++ counters.map Action.write) := by
    rw [List.cons_append, List.cons_append, List.nil_append, always_cons, always_cons]
    refine ⟨⟨h, rfl, rfl⟩, ⟨hput, rfl, rfl⟩, ?_⟩
    refine Always.of_step ⟨hput.setUnconfirmed _ _, rfl, rfl⟩ ?_
    rintro t' ⟨ht', hserver, hacc⟩ a ha
    obtain ⟨w, hw, rfl⟩ := List.mem_map.mp ha
    rcases hcounters w hw with ⟨g, n, rfl⟩ | ⟨at_, rfl⟩
    · exact ⟨ht'.setDiffcount g n, hserver, hacc⟩
    · exact ⟨ht'.setLastBackupAt at_, hserver, hacc⟩
  refine ⟨hbefore.imp fun t' ht' => ht'.1, ?_⟩
  obtain ⟨hdur, hserver, hacc⟩ := hbefore.finish
  rw [always_cons, always_nil, hhash]
  refine ⟨hdur, hdur.removeArchive inj ?_⟩
  rw [hserver, hacc, hgame, hfiles]
  exact stored

/-- `queue_backup`: the entry is there, with its archive, before the base moves. -/
theorem Durable.queueBackup (h : Durable t) {job : BackupJob} {env : BackupEnv} {p : Packed}
    (hhash : p.create.blobHash = Blake3.ofArchive p.archive)
    (hgame : p.archive.metadata.gameId = job.gameId)
    (hfiles : p.archive.metadata.files = p.create.files)
    (cached : t.machine.device.cache p.create.blobHash = some p.archive)
    (fresh : t.machine.FreshFor (Savr.queueBackup job.gameId p env)) :
    Always Tracked.apply (fun t' => Durable t') t (Savr.queueBackup job.gameId p env) := by
  have genuine : OutboxPayload.Genuine ⟨job.gameId, p.create.blobHash, p.create⟩ :=
    ⟨p.archive, hhash.symm, rfl, hgame, hfiles⟩
  obtain ⟨henq, row, hrow, hpayload⟩ :=
    h.enqueueOutbox fresh.1 genuine env.queuedAt
  have hput := henq.putSnapshot
    (Or.inl ⟨row, hrow, _, hpayload, rfl, rfl, p.archive, cached, hhash.symm⟩)
    p.takenAt p.create.parent
  simp only [Savr.queueBackup, always_cons, always_nil]
  exact ⟨h, henq, hput, hput.setUnconfirmed _ _⟩

/-- A backup keeps the machine durable after each of its actions, so a crash between any two
of them loses nothing either. -/
theorem Durable.runBackup (inj : Function.Injective Blake3.ofArchive) (h : Durable t)
    (job : BackupJob) (env : BackupEnv)
    (fresh : t.machine.FreshFor (Savr.runBackup t.machine job env).2) :
    Always Tracked.apply (fun t' => Durable t') t (Savr.runBackup t.machine job env).2 := by
  rcases runBackup_cases t.machine job env with
    ⟨-, heq⟩ | ⟨p, hp, ⟨advance, hreply, heq⟩ | ⟨hreply, heq⟩⟩
  · rw [heq]
    simpa using h
  all_goals
    obtain ⟨hhash, hgame, hfiles⟩ := packBackup_archive hp
    rw [heq, List.cons_append, always_cons]
    rw [heq, List.cons_append] at fresh
    refine ⟨h, ?_⟩
    have hcache : Durable (t.apply p.pack) := by
      have := h.cacheArchive p.archive
      rwa [← hhash] at this
    have hfresh := (Machine.freshFor_append.mp fresh.2)
    have hrequests := hcache.requests (p.upload_requests _ _ _) hfresh.1
    rw [always_append]
    refine ⟨hrequests, ?_⟩
    have hdur := hrequests.finish
    have hrun := Tracked.run_requests (t.apply p.pack)
      (p.upload_requests (t.machine.apply p.pack) job.gameId env)
    have hdevice : ((t.machine.apply p.pack).run
        (p.upload (t.machine.apply p.pack) job.gameId env).1).device =
        (t.machine.apply p.pack).device :=
      Machine.run_requests_device (p.upload_requests _ _ _)
    change Durable (Script.run Tracked.apply (t.apply p.pack) _) at hdur
    rw [hrun] at hdur ⊢
  · refine hdur.settleBackup inj hhash hgame hfiles ?_
    have hstored := Packed.upload_stored (m := t.machine.apply p.pack) hcache.sound hfresh.1 hreply
    refine ⟨advance.version, ?_, congrArg CreateVersion.files hstored.2⟩
    change _ ∈ Db.listVersions _ (((t.machine.apply p.pack).run _).device.accountId) _
    rw [hdevice]
    exact hstored.1
  · refine hdur.queueBackup hhash hgame hfiles ?_ hfresh.2
    change ((t.machine.apply p.pack).run _).device.cache _ = _
    rw [hdevice]
    simp [Packed.pack, Write.apply]

/-! ### Draining the outbox -/

/-- Every row of the outbox still carries what the row with its id carried. -/
def SameEntries (d d' : Device) : Prop :=
  ∀ row ∈ d'.state.outbox, ∃ row₀ ∈ d.state.outbox, row₀.id = row.id ∧
    row₀.payload = row.payload

omit [Blake3] in
theorem SameEntries.of_eq {d d' : Device} (h : d'.state.outbox = d.state.outbox) :
    SameEntries d d' :=
  fun row hrow => ⟨row, h ▸ hrow, rfl, rfl⟩

omit [Blake3] in
theorem SameEntries.trans {d d' d'' : Device} (h : SameEntries d d') (h' : SameEntries d' d'') :
    SameEntries d d'' := by
  intro row hrow
  obtain ⟨row', hrow', hid', hp'⟩ := h' row hrow
  obtain ⟨row₀, hrow₀, hid₀, hp₀⟩ := h row' hrow'
  exact ⟨row₀, hrow₀, hid₀.trans hid', hp₀.trans hp'⟩

/-- Only `enqueue_outbox` brings in a row. -/
theorem sameEntries_apply (m : Machine) (a : Action)
    (hold : ∀ id p next, a ≠ .write (.enqueueOutbox id p next)) :
    SameEntries m.device (m.apply a).device := by
  cases a with
  | request r => exact SameEntries.of_eq rfl
  | write w =>
      cases w with
      | enqueueOutbox id p next => exact absurd rfl (hold id p next)
      | removeOutbox id => exact fun row hrow => ⟨row, List.mem_of_mem_filter hrow, rfl, rfl⟩
      | bumpOutboxAttempt id next =>
          intro row hrow
          obtain ⟨row₀, hrow₀, rfl⟩ := List.mem_map.mp hrow
          refine ⟨row₀, hrow₀, ?_⟩
          split <;> simp
      | putSnapshot | setLocalHead | setUnconfirmed | setDiffcount | setLastBackupAt
      | cacheArchive | removeArchive => exact SameEntries.of_eq rfl

/-- Actions that queue nothing add no entry. -/
theorem sameEntries_run (m : Machine) (as : List Action)
    (hold : ∀ a ∈ as, ∀ id p next, a ≠ .write (.enqueueOutbox id p next)) :
    SameEntries m.device (m.run as).device := by
  induction as generalizing m with
  | nil => exact SameEntries.of_eq rfl
  | cons a as ih =>
      exact (sameEntries_apply m a (hold a (by simp))).trans
        (ih (m.apply a) fun b hb => hold b (by simp [hb]))

/-- A retry settles the row it works on and adds none. -/
theorem retryItem_queues_nothing (m : Machine) (now : Timestamp) (item : OutboxRow)
    (env : RetryEnv) :
    ∀ a ∈ retryItem m now item env, ∀ id p next, a ≠ .write (.enqueueOutbox id p next) := by
  have hupload : ∀ p : OutboxPayload, ∀ a ∈ (p.upload m env).1, ∃ r, a = Action.request r :=
    fun p => p.upload_requests m env
  rintro a ha id q next rfl
  rcases retryItem_cases m now item env with
    ⟨-, heq⟩ | ⟨p, -, ⟨advance, -, marks, hmarks, heq⟩ | ⟨-, next, heq⟩⟩
  · simp [heq] at ha
  · rw [heq] at ha
    simp only [List.mem_append, List.mem_cons, List.mem_map, Action.write.injEq, reduceCtorEq,
      exists_eq_right, List.not_mem_nil, or_false, false_or] at ha
    rcases ha with ha | ha
    · obtain ⟨r, hr⟩ := hupload p _ ha
      cases hr
    · obtain ⟨at_, hat⟩ := hmarks _ ha
      cases hat
  · rw [heq] at ha
    simp only [List.mem_append, List.mem_cons, Action.write.injEq, reduceCtorEq,
      List.not_mem_nil, or_false] at ha
    obtain ⟨r, hr⟩ := hupload p _ ha
    cases hr

/-- The bookkeeping after an entry was answered: its version is stored, so the row
may go, and then the archive. -/
theorem Durable.settleRetry (inj : Function.Injective Blake3.ofArchive) (h : Durable t)
    {id : Uuid} {p : OutboxPayload} {head : VersionId} {marks : List Write}
    (hmarks : ∀ w ∈ marks, ∃ at_, w = Write.setLastBackupAt at_)
    (same : ∀ row ∈ t.machine.device.state.outbox, row.id = id → row.payload = some p)
    (genuine : p.Genuine)
    (stored : ∃ v ∈ t.machine.server.db.listVersions t.machine.device.accountId p.gameId,
      v.files = p.createVersion.files) :
    Always Tracked.apply (fun t' => Durable t') t
      ((Action.write (.setLocalHead p.gameId head) :: marks.map Action.write) ++
        [.write (.removeOutbox id), .write (.removeArchive p.blobHash)]) := by
  obtain ⟨a, hah, -, hgame, hfiles⟩ := genuine
  have hmarked : Always Tracked.apply (fun t' => Durable t' ∧
      t'.machine.server = t.machine.server ∧
      t'.machine.device.accountId = t.machine.device.accountId ∧
      t'.machine.device.state.outbox = t.machine.device.state.outbox) t
      (Action.write (.setLocalHead p.gameId head) :: marks.map Action.write) := by
    rw [always_cons]
    refine ⟨⟨h, rfl, rfl, rfl⟩, Always.of_step ⟨h.setLocalHead _ _, rfl, rfl, rfl⟩ ?_⟩
    rintro t' ⟨ht', hserver, hacc, houtbox⟩ b hb
    obtain ⟨w, hw, rfl⟩ := List.mem_map.mp hb
    obtain ⟨at_, rfl⟩ := hmarks w hw
    exact ⟨ht'.setLastBackupAt at_, hserver, hacc, houtbox⟩
  obtain ⟨hend, hserver, hacc, houtbox⟩ := hmarked.finish
  have hrow := hend.removeOutbox id
    fun row hrow hid q hq => by
      rw [houtbox] at hrow
      obtain rfl := Option.some.inj ((same row hrow hid).symm.trans hq)
      rw [hserver, hacc]
      exact stored
  have harchive := hrow.removeArchive inj (a := a) (by
    rw [hgame, hfiles]
    change ∃ v ∈ (Script.run Tracked.apply t _).machine.server.db.listVersions
      (Script.run Tracked.apply t _).machine.device.accountId _, _
    rw [hserver, hacc]
    exact stored)
  rw [hah] at harchive
  rw [always_append]
  refine ⟨hmarked.imp fun t' ht' => ht'.1, ?_⟩
  rw [always_cons, always_cons, always_nil]
  exact ⟨hend, hrow, harchive⟩

/-- One entry of a drain.  The row it stands for is still in the outbox as it was,
or gone. -/
theorem Durable.retryItem (inj : Function.Injective Blake3.ofArchive) (h : Durable t)
    {now : Timestamp} {item : OutboxRow} {env : RetryEnv}
    (same : ∀ row ∈ t.machine.device.state.outbox, row.id = item.id →
      row.payload = item.payload)
    (genuine : ∀ p, item.payload = some p → p.Genuine)
    (fresh : t.machine.FreshFor (Savr.retryItem t.machine now item env)) :
    Always Tracked.apply (fun t' => Durable t') t (Savr.retryItem t.machine now item env) := by
  rcases retryItem_cases t.machine now item env with
    ⟨hnone, heq⟩ | ⟨p, hp, ⟨advance, hreply, marks, hmarks, heq⟩ | ⟨hreply, next, heq⟩⟩
  · rw [heq, always_cons, always_nil]
    refine ⟨h, h.removeOutbox _ fun row hrow hid q hq => ?_⟩
    rw [same row hrow hid, hnone] at hq
    cases hq
  all_goals
    have hreq := p.upload_requests t.machine env
    have hdevice := p.upload_device t.machine env
    rw [heq]
    rw [heq] at fresh
  · rw [List.append_assoc] at fresh ⊢
    have hfresh := (Machine.freshFor_append.mp fresh).1
    have hrequests := h.requests hreq hfresh
    have hstored := uploadVersion_stored h.sound hfresh hreply
    have hdur := hrequests.finish
    rw [always_append, t.run_requests hreq]
    rw [t.run_requests hreq] at hdur
    refine ⟨hrequests, hdur.settleRetry inj hmarks ?_ (genuine p hp) ?_⟩
    · rw [hdevice]
      intro row hrow hid
      rw [same row hrow hid, hp]
    · rw [hdevice]
      exact ⟨advance.version, hstored.1, congrArg CreateVersion.files hstored.2⟩
  · have hrequests := h.requests hreq (Machine.freshFor_append.mp fresh).1
    have hdur := hrequests.finish
    rw [always_append, always_cons, always_nil]
    exact ⟨hrequests, hdur, hdur.bumpOutboxAttempt _ _⟩

/-- The loop over the due entries. -/
theorem Durable.retryLoop (inj : Function.Injective Blake3.ofArchive) (h : Durable t)
    {now : Timestamp} {env : Uuid → RetryEnv} {items : List OutboxRow}
    (same : ∀ item ∈ items, ∀ row ∈ t.machine.device.state.outbox, row.id = item.id →
      row.payload = item.payload)
    (genuine : ∀ item ∈ items, ∀ p, item.payload = some p → p.Genuine)
    (fresh : t.machine.FreshFor (Savr.retryLoop now env t.machine items)) :
    Always Tracked.apply (fun t' => Durable t') t (Savr.retryLoop now env t.machine items) := by
  induction items generalizing t with
  | nil => simpa [Savr.retryLoop] using h
  | cons item items ih =>
      rw [Savr.retryLoop] at fresh ⊢
      have hfresh := Machine.freshFor_append.mp fresh
      have hitem := h.retryItem inj (same item (by simp)) (genuine item (by simp)) hfresh.1
      have hdur := hitem.finish
      rw [always_append]
      refine ⟨hitem, ?_⟩
      rw [Tracked.run_eq] at hdur ⊢
      refine ih hdur ?_ (fun i hi => genuine i (by simp [hi])) hfresh.2
      intro i hi row hrow hid
      obtain ⟨row₀, hrow₀, hid₀, hp₀⟩ := sameEntries_run t.machine _
        (retryItem_queues_nothing t.machine now item (env item.id)) row hrow
      exact hp₀.symm.trans (same i (by simp [hi]) row₀ hrow₀ (hid₀.trans hid))

/-- A retry pass keeps the machine durable after each of its actions, on the due rows one
after the other. -/
theorem Durable.retryOutbox (inj : Function.Injective Blake3.ofArchive) (h : Durable t)
    {authenticated : Bool} {now : Timestamp} {env : Uuid → RetryEnv}
    (fresh : t.machine.FreshFor (Savr.retryOutbox t.machine authenticated now env)) :
    Always Tracked.apply (fun t' => Durable t') t
      (Savr.retryOutbox t.machine authenticated now env) := by
  unfold Savr.retryOutbox at fresh ⊢
  split
  · rename_i hauth
    rw [if_pos hauth] at fresh
    have hdue : ∀ item ∈ t.machine.device.state.dueOutbox now,
        item ∈ t.machine.device.state.outbox := by
      intro item hitem
      rw [LocalState.dueOutbox, RankedList.mem_sortBy] at hitem
      exact List.mem_of_mem_filter hitem
    refine h.retryLoop inj (fun item hitem row hrow hid => ?_)
      (fun item hitem => h.genuine item (hdue item hitem)) fresh
    rw [List.inj_on_of_nodup_map h.outboxIds hrow (hdue item hitem) hid]
  · simpa using h

/-- A restore keeps the machine durable: the base it stores is a listed version's. -/
theorem Durable.runRestore (h : Durable t) (gameId : GameId) (target : VersionId) :
    Always Tracked.apply (fun t' => Durable t') t (Savr.runRestore t.machine gameId target) := by
  rcases runRestore_cases t.machine gameId target (h.sound.wf.distinctIds _ _) with
    heq | ⟨v, hv, heq⟩
  · rw [heq]
    simpa using h
  · rw [heq, always_cons, always_nil]
    exact ⟨h, h.putSnapshot (Or.inr ⟨v, hv, rfl⟩) _ _⟩

/-- **Every operation keeps the invariant at every point.** -/
theorem Durable.script (inj : Function.Injective Blake3.ofArchive) (h : Durable t) (op : Op)
    (fresh : t.machine.FreshFor (op.script t.machine)) :
    Always Tracked.apply (fun t' => Durable t') t (op.script t.machine) := by
  cases op with
  | backup job env => exact h.runBackup inj job env fresh
  | retry authenticated now env => exact h.retryOutbox inj fresh
  | restore gameId target => exact h.runRestore gameId target
  | resolve gameId winner keepBoth id now =>
      exact h.requests (by simp [Op.script]) fresh

end Operation

/-! ### Whole runs -/

section World

variable {w w' w₀ : World} {ev : Event} {trace : List Event}

omit [Blake3] in
theorem storedBases_snoc (d : ℕ) (trace : List Event) (ev : Event) :
    storedBases d (trace ++ [ev]) = storedBases d trace ++
      if ev.device = d then ev.performed.flatMap Action.stored else [] := by
  simp [storedBases]

/-- What another device does takes nothing from this one. -/
theorem Durable.of_le {t : Tracked} (h : Durable t) {s : Server} (sound : s.Sound)
    (hle : t.machine.server.Le s) : Durable ⟨⟨t.machine.device, s⟩, t.bases⟩ := by
  refine ⟨sound, h.outboxIds, h.genuine, fun gameId files hmem => ?_, h.current⟩
  refine (h.declared gameId files hmem).mono ?_ rfl hle
  exact fun row hrow p hp a ha hah => Or.inl ⟨row, hrow, hp, a, ha, hah⟩

/-- One step of the world keeps every device durable, the step's own and the others'. -/
theorem Durable.step (inj : Function.Injective Blake3.ofArchive)
    (h : ∀ d, Durable ⟨w.machine d, storedBases d trace⟩) (step : Step w ev w') (d : ℕ) :
    Durable ⟨w'.machine d, storedBases d (trace ++ [ev])⟩ := by
  obtain ⟨k, hperf, fresh, rfl, -⟩ := step.performs
  rw [storedBases_snoc]
  by_cases hd : ev.device = d
  · subst hd
    have halways := (h ev.device).script inj ev.op fresh
    have hdur := halways k
    rw [Tracked.run_eq, ← hperf] at hdur
    rw [World.perform_machine, if_pos rfl]
    exact hdur
  · have hsound := Machine.run_sound (m := w.machine ev.device) (h ev.device).sound (fresh.take k)
    rw [World.perform_machine_of_ne w (Ne.symm hd), if_neg hd, List.append_nil, hperf]
    exact (h d).of_le hsound.1 hsound.2.1

/-- A new world is durable, with no base stored. -/
theorem World.New.durable (new : w.New) (d : ℕ) : Durable ⟨w.machine d, storedBases d []⟩ := by
  refine ⟨new.sound, ?_, ?_, ?_, ?_⟩
  · simp [(new.devices d).outbox]
  · simp [(new.devices d).outbox]
  · simp [storedBases]
  · intro gameId snap hsnap
    rw [machine_device, (new.devices d).snapshots] at hsnap
    cases hsnap

theorem durable_run (inj : Function.Injective Blake3.ofArchive) (new : w₀.New)
    (run : Run Step w₀ trace w) (d : ℕ) : Durable ⟨w.machine d, storedBases d trace⟩ :=
  run.invariant_trace (I := fun trace w => ∀ d, Durable ⟨w.machine d, storedBases d trace⟩)
    (fun _ _ _ _ h step d => Durable.step inj h step d) new.durable d

/-- `NoChange` for a job with a pattern: there is a base, and the save holds the
same files. -/
theorem runBackup_noChange {m : Machine} {job : BackupJob} {env : BackupEnv}
    (patterns : job.patterns ≠ []) (noChange : (runBackup m job env).1 = .noChange) :
    ∃ snap, m.device.state.snapshots job.gameId = some snap ∧
      fileMap snap.files = fileMap (Snapshot.build job.gameId env.saves env.takenAt).files := by
  have hpack : packBackup m.device job env = none := by
    unfold runBackup at noChange
    cases hp : packBackup m.device job env with
    | none => rfl
    | some p =>
        simp only [hp] at noChange
        split at noChange
        · split at noChange <;> cases noChange
        · cases noChange
  unfold packBackup at hpack
  rw [if_neg (by simp [patterns]), Option.map_eq_none_iff, backupDiff] at hpack
  split at hpack
  · cases hpack
  · rename_i prev hprev
    refine ⟨prev, hprev, ?_⟩
    simp only [ite_eq_left_iff, Bool.and_eq_true, reduceCtorEq, imp_false, not_not] at hpack
    exact (diff_isEmpty_iff env.saves.distinctPaths).mp hpack.1

/-- **No captured change is lost.**  In every run, crashes included, every file set a
device ever made its base is in its outbox, with the archive, or on the server; so
when a backup finds nothing to do, what it found on the disk is. -/
theorem no_captured_change_lost (inj : Function.Injective Blake3.ofArchive) (new : w₀.New)
    (run : Run Step w₀ trace w) (d : ℕ) :
    (∀ gameId files, (gameId, files) ∈ storedBases d trace →
      (w.machine d).Declared gameId files) ∧
    ∀ job env, job.patterns ≠ [] → (runBackup (w.machine d) job env).1 = .noChange →
      ∃ files, (w.machine d).Declared job.gameId files ∧
        fileMap files = fileMap (Snapshot.build job.gameId env.saves env.takenAt).files := by
  have hdur := durable_run inj new run d
  refine ⟨hdur.declared, fun job env patterns noChange => ?_⟩
  obtain ⟨snap, hsnap, hmap⟩ := runBackup_noChange patterns noChange
  exact ⟨snap.files, hdur.declared _ _ (hdur.current _ _ hsnap), hmap⟩

end World

end General

/-! ### A crash while the server is out of reach -/

section Example

local instance noLossDigest : Blake3 := plainDigest

/-- The first backup of a device, not paired, killed right after `put_snapshot`: the
base has advanced and the entry is there. -/
theorem no_captured_change_lost_crash :
    ∃ trace w, Run Step newWorld trace w ∧
      storedBases 0 trace = [(10, [(SaveFile.mk "save.dat" 0 [1]).entry])] ∧
      (w.machine 0).Declared 10 [(SaveFile.mk "save.dat" 0 [1]).entry] := by
  have run : Run Step newWorld _ _ := Run.single (Step.crash (w := newWorld) 0
    (.backup exampleJob (exampleBackup (oneByteSave 1) false .none 1)) 3 (by decide))
  refine ⟨_, _, run, rfl, ?_⟩
  refine (no_captured_change_lost plainDigest_injective newWorld_new run 0).1 _ _ ?_
  exact List.mem_singleton_self _

end Example

end Savr
