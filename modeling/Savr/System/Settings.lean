import Savr.Daemon.Catalog

/-!
# Settings across devices

`update_config` and `pull_config` of `savr-daemon/src/engine.rs`, against `put_config` and
`get_config` of the server: statement by statement for any number of devices, and call by
call for the settings view of one device (`savr-app/ui/src/views/Settings.svelte`).

An update stores the edit locally, pushes it, and on success stores what the server returned;
a push that fails is only logged, and the update is answered `Ok`.  A pull stores what the
server has, whatever is stored locally.  A call of the server is one statement here: it takes
effect at its guarded update, or where its tag is compared (`Savr.Server.Config`).

## Main results

* `acknowledged_edits_kept_iff` — exactly the runs in which no acknowledged edit is dropped.
* `lone_device_synced_iff` — exactly the runs in which the edits of a lone device reach the
  server.
-/

namespace Savr

open LabelledRun Interleaving

/-- What the devices of an account share: the server, and for each device its local config
and the pushes on their way to it.  The last edit of each device, with the call that made it,
and the configs the server accepted are recorded. -/
structure SettingsState where
  db : Db
  localConfig : DeviceId → Option SyncedConfig
  pushes : DeviceId → List String
  latest : DeviceId → Option (ℕ × SyncedConfig)
  accepted : List SyncedConfig

/-- The statement a call executes next. Calls of one device overlap too: a page may save
while a push is being handled. -/
inductive SettingsPc
  /-- `update_config`: store the edit. -/
  | save (device : DeviceId) (cfg : SyncedConfig)
  /-- Push it to the server. -/
  | push (device : DeviceId) (cfg : SyncedConfig)
  /-- Store what the server returned. -/
  | adopt (device : DeviceId) (cfg updated : SyncedConfig)
  | answered (device : DeviceId) (cfg : SyncedConfig) (ok : Bool)
  /-- A `ConfigUpdated` push arrives, and starts a `pull_config`. -/
  | deliver (device : DeviceId)
  | fetch (device : DeviceId)
  /-- Store what was fetched. -/
  | store (device : DeviceId) (cfg : SyncedConfig)
  | pulled (device : DeviceId)

/-- What the environment decides about a statement: whether a local write succeeds, what
happens to a request, and the tags the server draws. -/
structure SettingsDraw where
  saved : Bool
  delivery : Delivery
  seed : Uuid
  draw : Uuid
  deriving DecidableEq, Repr

namespace SettingsState

/-- A device stores the config it has. -/
def setLocal (s : SettingsState) (device : DeviceId) (cfg : SyncedConfig) : SettingsState :=
  { s with localConfig := Function.update s.localConfig device (some cfg) }

/-- `broadcast_except`: all other devices are told. -/
def announce (s : SettingsState) (device : DeviceId) (tag : String) : DeviceId → List String :=
  fun other => if other = device then s.pushes other else s.pushes other ++ [tag]

/-- `PUT /config`: a config that is accepted is announced to the other devices of the account. -/
def putConfig (s : SettingsState) (account : AccountId) (device : DeviceId)
    (cfg : SyncedConfig) (d : SettingsDraw) : SettingsState × Except ApiError SyncedConfig :=
  let (db, reply) := s.db.putConfig account cfg d.seed d.draw
  match reply with
  | .error e => ({ s with db }, .error e)
  | .ok updated =>
      ({ s with
          db
          pushes := s.announce device updated.tag
          accepted := s.accepted ++ [cfg] },
        .ok updated)

/-- The server has accepted these settings. -/
def Accepted (s : SettingsState) (cfg : SyncedConfig) : Prop :=
  ∃ a ∈ s.accepted, a.SameUpToTag cfg

/-- The device has these settings. -/
def Holds (s : SettingsState) (device : DeviceId) (cfg : SyncedConfig) : Prop :=
  ∃ c ∈ s.localConfig device, c.SameUpToTag cfg

instance (s : SettingsState) (cfg : SyncedConfig) : Decidable (s.Accepted cfg) :=
  inferInstanceAs (Decidable (∃ a ∈ s.accepted, a.SameUpToTag cfg))

instance (s : SettingsState) (device : DeviceId) (cfg : SyncedConfig) :
    Decidable (s.Holds device cfg) :=
  inferInstanceAs (Decidable (∃ c ∈ s.localConfig device, c.SameUpToTag cfg))

end SettingsState

/-- One statement of the call `i`. An edit is stored before it is pushed, and a push that
fails leaves it to be answered as saved. -/
def execSettings (account : AccountId) (s : SettingsState) (i : ℕ) (pc : SettingsPc)
    (d : SettingsDraw) : SettingsState × SettingsPc :=
  match pc with
  | .save device cfg =>
      if d.saved then
        ({ s.setLocal device cfg with
            latest := Function.update s.latest device (some (i, cfg)) }, .push device cfg)
      else (s, .answered device cfg false)
  | .push device cfg =>
      -- "config push failed (kept locally)"
      if d.delivery = .lost then (s, .answered device cfg true)
      else
        match s.putConfig account device cfg d with
        | (s', .error _) => (s', .answered device cfg true)
        | (s', .ok updated) =>
            (s', if d.delivery = .answered then .adopt device cfg updated
              else .answered device cfg true)
  | .adopt device cfg updated =>
      if d.saved then (s.setLocal device updated, .answered device cfg true)
      else (s, .answered device cfg false)
  | .deliver device =>
      ({ s with pushes := Function.update s.pushes device (s.pushes device).tail },
        .fetch device)
  | .fetch device =>
      if d.delivery = .lost then (s, .pulled device)
      else
        let (db, reply) := s.db.getOrSeedConfig account d.seed
        ({ s with db },
          if d.delivery = .answered then
            match reply with
            | .ok cfg => .store device cfg
            | .error _ => .pulled device
          else .pulled device)
  | .store device cfg =>
      (if d.saved then s.setLocal device cfg else s, .pulled device)
  | .answered device cfg ok => (s, .answered device cfg ok)
  | .pulled device => (s, .pulled device)

/-- A call begins as an update or with the arrival of a push. -/
def SettingsPc.isStart : SettingsPc → Bool
  | .save _ _ | .deliver _ => true
  | _ => false

/-- A pull needs a push that has arrived. -/
def SettingsPc.canStep (s : SettingsState) : SettingsPc → Bool
  | .answered _ _ _ | .pulled _ => false
  | .deliver device => !(s.pushes device).isEmpty
  | _ => true

/-- The calls of the devices of one account. -/
def settingsProgram (account : AccountId) : Program SettingsState ℕ SettingsPc SettingsDraw where
  Init pc := pc.isStart = true
  Ready s _ pc _ := pc.canStep s = true
  exec := execSettings account

/-- The config of an account, its copies on the devices and the calls that run. -/
abbrev SettingsWorld := World SettingsState ℕ SettingsPc

/-- A call starts, or makes one step. -/
abbrev SettingsEvent := Interleaving.Event ℕ SettingsPc SettingsDraw

/-- The push of an edit is lost, or carries another tag than the one it is compared with. -/
def SettingsState.PushFails (s : SettingsState) (account : AccountId) (cfg : SyncedConfig)
    (d : SettingsDraw) : Prop :=
  d.delivery = .lost ∨ cfg.tag ≠ (s.db.configOrSeed account d.seed).tag

instance (s : SettingsState) (account : AccountId) (cfg : SyncedConfig) (d : SettingsDraw) :
    Decidable (s.PushFails account cfg d) :=
  inferInstanceAs (Decidable (d.delivery = .lost ∨
    cfg.tag ≠ (s.db.configOrSeed account d.seed).tag))

namespace SettingsWorld

/-- No call has started, and nothing has been edited or accepted. -/
structure New (w : SettingsWorld) (account : AccountId) : Prop where
  keyed : w.shared.db.Keyed account
  latest : ∀ device, w.shared.latest device = none
  accepted : w.shared.accepted = []
  procs : ∀ i, w.procs i = none

/-- The last edit of a device, for which `update_config` has answered `Ok`. -/
def Acknowledged (w : SettingsWorld) (device : DeviceId) (cfg : SyncedConfig) : Prop :=
  ∃ i, w.procs i = some (.answered device cfg true) ∧ w.shared.latest device = some (i, cfg)

/-- An edit that is acknowledged is one that the server accepted, or the device has it. -/
def Kept (w : SettingsWorld) : Prop :=
  ∀ device cfg, w.Acknowledged device cfg → w.shared.Accepted cfg ∨ w.shared.Holds device cfg

/-- What the call `i` must find when it executes a statement: a push that fails, the edit
still in place; a config of the server that is stored over an acknowledged edit, the same
settings, or the edit accepted. -/
def Spares (account : AccountId) (w : SettingsWorld) (i : ℕ) (d : SettingsDraw) :
    SettingsPc → Prop
  | .push device cfg =>
      w.shared.latest device = some (i, cfg) → w.shared.PushFails account cfg d →
        w.shared.Accepted cfg ∨ w.shared.Holds device cfg
  | .adopt device _ updated | .store device updated =>
      d.saved = true → ∀ cfg, w.Acknowledged device cfg →
        w.shared.Accepted cfg ∨ updated.SameUpToTag cfg
  | _ => True

/-- No step of the event overwrites an edit that was acknowledged. -/
def SparesEdits (account : AccountId) (w : SettingsWorld) : SettingsEvent → Prop
  | .start _ _ => True
  | .exec i d => ∀ pc ∈ w.procs i, w.Spares account i d pc

/-- What every run keeps: a config is adopted after the server has accepted the edit. -/
structure Sound (account : AccountId) (w : SettingsWorld) : Prop where
  keyed : w.shared.db.Keyed account
  adopts : ∀ i device cfg updated, w.procs i = some (.adopt device cfg updated) →
    w.shared.Accepted cfg

end SettingsWorld

section Steps

variable {account : AccountId} {s s' : SettingsState} {i : ℕ} {pc pc' : SettingsPc}
  {d : SettingsDraw} {device : DeviceId} {cfg c : SyncedConfig}

theorem SettingsState.setLocal_self : (s.setLocal device c).localConfig device = some c :=
  Function.update_self device _ _

theorem SettingsState.setLocal_of_ne {other : DeviceId} (hother : other ≠ device) :
    (s.setLocal device c).localConfig other = s.localConfig other :=
  Function.update_of_ne hother _ _

theorem SettingsState.Accepted.mono (h : s.Accepted cfg)
    (haccepted : ∀ a ∈ s.accepted, a ∈ s'.accepted) : s'.Accepted cfg := by
  obtain ⟨a, ha, hsame⟩ := h
  exact ⟨a, haccepted a ha, hsame⟩

/-- **What a push can do.**  One that fails is answered `Ok` and changes no device; one that
succeeds is recorded as accepted. -/
theorem execSettings_push (keyed : s.db.Keyed account) (i : ℕ) (device : DeviceId)
    (cfg : SyncedConfig) (d : SettingsDraw) :
    (s.PushFails account cfg d ∧ ∃ db, db.Keyed account ∧
      execSettings account s i (.push device cfg) d =
        ({ s with db }, .answered device cfg true)) ∨
    (¬ s.PushFails account cfg d ∧ ∃ db, db.Keyed account ∧
      execSettings account s i (.push device cfg) d =
        ({ s with
            db
            pushes := s.announce device (Uuid.text d.draw)
            accepted := s.accepted ++ [cfg] },
          if d.delivery = .answered then .adopt device cfg (cfg.withTag (Uuid.text d.draw))
          else .answered device cfg true)) := by
  by_cases hlost : d.delivery = .lost
  · exact Or.inl ⟨Or.inl hlost, s.db, keyed, by simp [execSettings, hlost]⟩
  · rcases Db.putConfig_spec keyed cfg d.seed d.draw with
      ⟨htag, db, hput, keyed', -⟩ | ⟨htag, e, hput⟩
    · refine Or.inr ⟨fun h => h.elim hlost fun hne => hne htag, db, keyed', ?_⟩
      simp only [execSettings, if_neg hlost, SettingsState.putConfig, hput]
      rfl
    · refine Or.inl ⟨Or.inr htag, s.db.seededDb account d.seed, keyed.seededDb, ?_⟩
      simp only [execSettings, if_neg hlost, SettingsState.putConfig, hput]

/-- **One statement keeps the run sound.** -/
theorem execSettings_sound (keyed : s.db.Keyed account) (pc : SettingsPc) :
    (execSettings account s i pc d).1.db.Keyed account ∧
    (∀ a ∈ s.accepted, a ∈ (execSettings account s i pc d).1.accepted) ∧
    ∀ device cfg updated, (execSettings account s i pc d).2 = .adopt device cfg updated →
      (execSettings account s i pc d).1.Accepted cfg := by
  cases pc with
  | push device cfg =>
      rcases execSettings_push keyed i device cfg d with
        ⟨-, db, keyed', hexec⟩ | ⟨-, db, keyed', hexec⟩
      · rw [hexec]
        exact ⟨keyed', fun a ha => ha, by simp⟩
      · rw [hexec]
        refine ⟨keyed', fun a ha => List.mem_append_left _ ha, ?_⟩
        intro device' cfg' updated hadopt
        have hcfg : cfg = cfg' := by
          by_cases hanswered : d.delivery = .answered
          · rw [if_pos hanswered] at hadopt
            exact (SettingsPc.adopt.inj hadopt).2.1
          · rw [if_neg hanswered] at hadopt
            cases hadopt
        exact ⟨cfg, List.mem_append_right _ (List.mem_singleton_self _), by rw [hcfg]; rfl⟩
  | save device cfg =>
      simp only [execSettings]
      split
      · exact ⟨keyed, fun a ha => ha, by simp⟩
      · exact ⟨keyed, fun a ha => ha, by simp⟩
  | adopt device cfg updated =>
      simp only [execSettings]
      split
      · exact ⟨keyed, fun a ha => ha, by simp⟩
      · exact ⟨keyed, fun a ha => ha, by simp⟩
  | fetch device =>
      simp only [execSettings]
      split
      · exact ⟨keyed, fun a ha => ha, by simp⟩
      · rw [(Db.getOrSeedConfig_spec keyed d.seed).1]
        refine ⟨keyed.seededDb, fun a ha => ha, ?_⟩
        split <;> simp
  | store device cfg =>
      simp only [execSettings]
      split
      · exact ⟨keyed, fun a ha => ha, by simp⟩
      · exact ⟨keyed, fun a ha => ha, by simp⟩
  | deliver device => exact ⟨keyed, fun a ha => ha, by simp [execSettings]⟩
  | answered device cfg ok => exact ⟨keyed, fun a ha => ha, by simp [execSettings]⟩
  | pulled device => exact ⟨keyed, fun a ha => ha, by simp [execSettings]⟩

end Steps

section Runs

variable {account : AccountId} {w w' w₀ : SettingsWorld} {s' : SettingsState} {i : ℕ}
  {pc pc' : SettingsPc} {ev : SettingsEvent} {d : SettingsDraw} {device : DeviceId}
  {cfg c : SyncedConfig}

namespace SettingsWorld

/-- A step of any page or device keeps the world sound: a config of the server is adopted
only after the server took the edit. -/
theorem Sound.step (h : w.Sound account) (step : (settingsProgram account).Step w ev w') :
    w'.Sound account := by
  rcases step.cases with ⟨i, pc, -, hnone, hstart, rfl⟩ | ⟨i, d, pc, -, hpc, -, rfl⟩
  · refine ⟨h.keyed, fun j device cfg updated hadopt => ?_⟩
    by_cases hj : j = i
    · subst hj
      obtain rfl : pc = .adopt device cfg updated := by simpa using hadopt
      cases hstart
    · exact h.adopts j device cfg updated (by simpa [hj] using hadopt)
  · obtain ⟨keyed, hmono, hown⟩ := execSettings_sound (i := i) (d := d) h.keyed pc
    refine ⟨keyed, fun j device cfg updated hadopt => ?_⟩
    by_cases hj : j = i
    · subst hj
      exact hown device cfg updated
        (Option.some.inj ((Function.update_self j _ _).symm.trans hadopt))
    · exact (h.adopts j device cfg updated (by simpa [hj] using hadopt)).mono hmono

/-- Who is acknowledged after a statement of the call `i` that is no new edit. -/
theorem acknowledged_exec_iff (hpc : w.procs i = some pc)
    (hrunning : ∀ device cfg ok, pc ≠ .answered device cfg ok)
    (hlatest : s'.latest = w.shared.latest) :
    Acknowledged ⟨s', Function.update w.procs i (some pc')⟩ device cfg ↔
      w.Acknowledged device cfg ∨
        (pc' = .answered device cfg true ∧ w.shared.latest device = some (i, cfg)) := by
  constructor
  · rintro ⟨j, hj, hedit⟩
    rw [hlatest] at hedit
    by_cases hji : j = i
    · subst hji
      exact Or.inr ⟨by simpa using hj, hedit⟩
    · exact Or.inl ⟨j, by simpa [hji] using hj, hedit⟩
  · rintro (⟨j, hj, hedit⟩ | ⟨rfl, hedit⟩)
    · have hji : j ≠ i := by
        rintro rfl
        exact hrunning _ _ _ (Option.some.inj (hpc.symm.trans hj))
      exact ⟨j, by simpa [hji] using hj, hlatest ▸ hedit⟩
    · exact ⟨i, by simp, hlatest ▸ hedit⟩

/-- After such a statement the edits are kept if those acknowledged before are, and its
own. -/
theorem kept_exec_iff (hpc : w.procs i = some pc)
    (hrunning : ∀ device cfg ok, pc ≠ .answered device cfg ok)
    (hlatest : s'.latest = w.shared.latest) :
    Kept ⟨s', Function.update w.procs i (some pc')⟩ ↔
      (∀ device cfg, w.Acknowledged device cfg → s'.Accepted cfg ∨ s'.Holds device cfg) ∧
      ∀ device cfg, pc' = .answered device cfg true →
        w.shared.latest device = some (i, cfg) → s'.Accepted cfg ∨ s'.Holds device cfg := by
  simp only [Kept, acknowledged_exec_iff hpc hrunning hlatest]
  constructor
  · intro h
    exact ⟨fun device cfg hack => h device cfg (Or.inl hack),
      fun device cfg hpc' hedit => h device cfg (Or.inr ⟨hpc', hedit⟩)⟩
  · rintro ⟨hold, hown⟩ device cfg (hack | ⟨hpc', hedit⟩)
    · exact hold device cfg hack
    · exact hown device cfg hpc' hedit

/-- A statement that changes no device and acknowledges nothing. -/
theorem Kept.idle (h : w.Kept) (hpc : w.procs i = some pc)
    (hrunning : ∀ device cfg ok, pc ≠ .answered device cfg ok)
    (hlatest : s'.latest = w.shared.latest) (hlocal : s'.localConfig = w.shared.localConfig)
    (haccepted : s'.accepted = w.shared.accepted)
    (hpc' : ∀ device cfg, pc' ≠ .answered device cfg true) :
    Kept ⟨s', Function.update w.procs i (some pc')⟩ := by
  refine (kept_exec_iff hpc hrunning hlatest).mpr ⟨fun device cfg hack => ?_, ?_⟩
  · rw [SettingsState.Accepted, SettingsState.Holds, haccepted, hlocal]
    exact h device cfg hack
  · intro device cfg hanswered
    exact absurd hanswered (hpc' device cfg)

/-- What storing a config of the server does to the edits acknowledged before. -/
theorem Kept.setLocal_iff (h : w.Kept) :
    (∀ other cfg, w.Acknowledged other cfg → (w.shared.setLocal device c).Accepted cfg ∨
        (w.shared.setLocal device c).Holds other cfg) ↔
      ∀ cfg, w.Acknowledged device cfg → w.shared.Accepted cfg ∨ c.SameUpToTag cfg := by
  constructor
  · intro hkept cfg hack
    refine (hkept device cfg hack).imp_right ?_
    rintro ⟨c', hc', hsame⟩
    obtain rfl := Option.some.inj (SettingsState.setLocal_self.symm.trans hc')
    exact hsame
  · intro hspares other cfg hack
    by_cases hother : other = device
    · subst hother
      exact (hspares cfg hack).imp_right fun hsame => ⟨c, SettingsState.setLocal_self, hsame⟩
    · refine (h other cfg hack).imp_right fun hholds => ?_
      rw [SettingsState.Holds, SettingsState.setLocal_of_ne hother]
      exact hholds

/-- An edit supersedes the one before it on its device. -/
theorem Kept.save (h : w.Kept) (hpc : w.procs i = some (.save device cfg)) :
    Kept ⟨{ w.shared.setLocal device cfg with
        latest := Function.update w.shared.latest device (some (i, cfg)) },
      Function.update w.procs i (some (.push device cfg))⟩ := by
  rintro other cfg' ⟨j, hj, hedit⟩
  have hji : j ≠ i := by
    rintro rfl
    simp at hj
  have hother : other ≠ device := by
    rintro rfl
    exact hji (by simpa using (congrArg (Option.map Prod.fst) hedit).symm)
  have hack : w.Acknowledged other cfg' :=
    ⟨j, by simpa [hji] using hj, by simpa [hother] using hedit⟩
  refine (h other cfg' hack).imp_right fun ⟨c, hc, hsame⟩ => ⟨c, ?_, hsame⟩
  exact (SettingsState.setLocal_of_ne hother).trans hc

theorem sparesEdits_exec_iff (hpc : w.procs i = some pc) :
    w.SparesEdits account (.exec i d) ↔ w.Spares account i d pc := by
  simp only [SparesEdits, hpc, Option.mem_some_iff, forall_eq']

/-- A push keeps the acknowledged edits exactly when it spares them: where it fails, the
edit is accepted already or still held. -/
theorem Kept.push_iff (kept : w.Kept) (sound : w.Sound account)
    (hpc : w.procs i = some (.push device cfg)) :
    Kept ⟨(execSettings account w.shared i (.push device cfg) d).1,
        Function.update w.procs i
          (some (execSettings account w.shared i (.push device cfg) d).2)⟩ ↔
      w.Spares account i d (.push device cfg) := by
  rcases execSettings_push sound.keyed i device cfg d with
    ⟨hfails, db, -, hexec⟩ | ⟨hok, db, -, hexec⟩
  · rw [hexec]
    refine Iff.trans (kept_exec_iff hpc (by simp) rfl) ?_
    constructor
    · rintro ⟨-, hown⟩ hedit -
      exact hown device cfg rfl hedit
    · intro hspares
      refine ⟨kept, ?_⟩
      rintro device' cfg' ⟨⟩ hedit
      exact hspares hedit hfails
  · refine iff_of_true ?_ fun _ hfails => absurd hfails hok
    rw [hexec]
    refine Iff.mpr (kept_exec_iff hpc (by simp) rfl) ⟨?_, ?_⟩
    · intro other cfg' hack
      exact (kept other cfg' hack).imp_left fun h => h.mono fun a ha =>
        List.mem_append_left _ ha
    · intro device' cfg' hanswered _
      have hcfg : cfg = cfg' := by
        by_cases hreply : d.delivery = .answered
        · rw [if_pos hreply] at hanswered
          cases hanswered
        · rw [if_neg hreply] at hanswered
          exact (SettingsPc.answered.inj hanswered).2.1
      exact Or.inl ⟨cfg, List.mem_append_right _ (List.mem_singleton_self _), by rw [hcfg]; rfl⟩

/-- **One statement**, from a state in which the edits are kept: they still are if and only
if it spares them. -/
theorem Kept.exec_iff (kept : w.Kept) (sound : w.Sound account) (hpc : w.procs i = some pc)
    (hready : pc.canStep w.shared = true) :
    Kept ⟨(execSettings account w.shared i pc d).1,
        Function.update w.procs i (some (execSettings account w.shared i pc d).2)⟩ ↔
      w.Spares account i d pc := by
  cases pc with
  | push device cfg => exact kept.push_iff sound hpc
  | save device cfg =>
      refine iff_of_true ?_ trivial
      by_cases hsaved : d.saved = true
      · simp only [execSettings, if_pos hsaved]
        exact kept.save hpc
      · simp only [execSettings, if_neg hsaved]
        exact kept.idle hpc (by simp) rfl rfl rfl (by simp)
  | adopt device cfg updated =>
      by_cases hsaved : d.saved = true
      · simp only [execSettings, if_pos hsaved]
        refine Iff.trans (kept_exec_iff hpc (by simp) rfl) ?_
        rw [kept.setLocal_iff]
        refine ⟨fun h _ => h.1, fun h => ⟨h hsaved, ?_⟩⟩
        -- its own edit has been accepted
        rintro device' cfg' ⟨⟩ _
        exact Or.inl (sound.adopts i device cfg updated hpc)
      · simp only [execSettings, if_neg hsaved]
        exact iff_of_true (kept.idle hpc (by simp) rfl rfl rfl (by simp))
          fun h => absurd h hsaved
  | store device updated =>
      by_cases hsaved : d.saved = true
      · simp only [execSettings, if_pos hsaved]
        refine Iff.trans (kept_exec_iff hpc (by simp) rfl) ?_
        rw [kept.setLocal_iff]
        exact ⟨fun h _ => h.1, fun h => ⟨h hsaved, by simp⟩⟩
      · simp only [execSettings, if_neg hsaved]
        exact iff_of_true (kept.idle hpc (by simp) rfl rfl rfl (by simp))
          fun h => absurd h hsaved
  | deliver device =>
      exact iff_of_true (kept.idle hpc (by simp) rfl rfl rfl (by simp [execSettings])) trivial
  | fetch device =>
      refine iff_of_true ?_ trivial
      simp only [execSettings]
      by_cases hlost : d.delivery = .lost
      · rw [if_pos hlost]
        exact kept.idle hpc (by simp) rfl rfl rfl (by simp)
      · rw [if_neg hlost, (Db.getOrSeedConfig_spec sound.keyed d.seed).1]
        refine kept.idle hpc (by simp) rfl rfl rfl ?_
        split <;> simp
  | answered device cfg ok => cases hready
  | pulled device => cases hready

end SettingsWorld

/-- **Exactly when no acknowledged edit is dropped.**  For every interleaving of the
statements of any number of updates and pulls, of any devices: an edit for which
`update_config` answered `Ok` is at every later moment among the settings that the server
accepted, or the device still has it until another edit is made there, if and only if no
push fails after its edit was overwritten, and no config of the server with other settings
is stored over an acknowledged edit that the server has not accepted. -/
theorem acknowledged_edits_kept_iff {trace : List SettingsEvent} (new : w₀.New account) :
    Run (into (settingsProgram account).Step SettingsWorld.Kept) w₀ trace w ↔
      Run (under (settingsProgram account).Step (SettingsWorld.SparesEdits account))
        w₀ trace w := by
  refine Run.into_iff_under_of_invariant (I := SettingsWorld.Sound account)
    (fun _ _ _ sound step => sound.step step) ⟨new.keyed, ?_⟩ ?_ ?_
  · intro i device cfg updated hadopt
    rw [new.procs i] at hadopt
    cases hadopt
  · rintro device cfg ⟨i, hanswered, -⟩
    rw [new.procs i] at hanswered
    cases hanswered
  · intro w ev w' sound kept step
    rcases step.cases with ⟨i, pc, rfl, hnone, hstart, rfl⟩ | ⟨i, d, pc, rfl, hpc, hready, rfl⟩
    · refine iff_of_true ?_ trivial
      rintro device cfg ⟨j, hj, hedit⟩
      have hji : j ≠ i := by
        rintro rfl
        obtain rfl : pc = .answered device cfg true := by simpa using hj
        cases hstart
      exact kept device cfg ⟨j, by simpa [hji] using hj, hedit⟩
    · rw [SettingsWorld.sparesEdits_exec_iff hpc]
      exact kept.exec_iff sound hpc hready

end Runs

section Example

instance (account : AccountId) : DecidablePred (settingsProgram account).Init :=
  fun pc => inferInstanceAs (Decidable (pc.isStart = true))

instance (account : AccountId) (s : SettingsState) (i : ℕ) (pc : SettingsPc)
    (d : SettingsDraw) : Decidable ((settingsProgram account).Ready s i pc d) :=
  inferInstanceAs (Decidable (pc.canStep s = true))

/-- The config the account has had so far. -/
def sharedConfig : SyncedConfig :=
  (default : SyncedConfig).withTag (Uuid.text 1)

/-- Two devices that have it, as does the server. No edit has been made yet. -/
def twoDesktops : SettingsWorld where
  shared :=
    { db :=
        { accounts := [1], devices := [], blobs := [], games := [], versions := [],
          config := [⟨1, Uuid.text 1, sharedConfig⟩], resolvedConflicts := [] }
      localConfig := fun _ => some sharedConfig
      pushes := fun _ => []
      latest := fun _ => none
      accepted := [] }
  procs := fun _ => none

theorem twoDesktops_new : twoDesktops.New 1 :=
  ⟨⟨by decide, List.nodup_singleton 1⟩, fun _ => rfl, rfl, fun _ => rfl⟩

/-- Every request is answered and every write succeeds. -/
def calm (draw : Uuid) : SettingsDraw where
  saved := true
  delivery := .answered
  seed := 9
  draw := draw

/-- The user turns automatic pulls on. -/
def autoPulling : SyncedConfig :=
  { sharedConfig with autopullPolicy := .auto }

/-- The user lets the latest version win. -/
def preferringLatest : SyncedConfig :=
  { sharedConfig with conflictPolicy := .latestWins }

/-- Both desktops after these steps. -/
def devicesAfter (trace : List SettingsEvent) : SettingsWorld :=
  trace.foldl (settingsProgram 1).next twoDesktops

/-- One device edits, and the other one pulls. -/
def editThenPull : List SettingsEvent :=
  [.start 0 (.save 22 autoPulling), .exec 0 (calm 2), .exec 0 (calm 2), .exec 0 (calm 2),
    .start 1 (.deliver 21), .exec 1 (calm 2), .exec 1 (calm 2), .exec 1 (calm 2)]

/-- Two desktops that edit one after the other, each pulling before it edits, lose no edit. -/
theorem editThenPull_kept :
    Run (into (settingsProgram 1).Step SettingsWorld.Kept) twoDesktops editThenPull
      (devicesAfter editThenPull) := by
  refine (acknowledged_edits_kept_iff twoDesktops_new).mpr
    (Run.under_of_enabled (Run.of_enabled
      ⟨⟨by decide, trivial⟩, ⟨by decide, ?_⟩, ⟨by decide, ?_⟩, ⟨by decide, ?_⟩,
        ⟨by decide, trivial⟩, ⟨by decide, ?_⟩, ⟨by decide, ?_⟩, ⟨by decide, ?_⟩, trivial⟩))
  · rintro _ ⟨⟩
    trivial
  · rintro _ ⟨⟩ - hfails
    exact absurd hfails (by decide)
  · rintro _ ⟨⟩ - cfg ⟨i, hanswered, hedit⟩
    have hcall : some (0, autoPulling) = some (i, cfg) := hedit
    obtain rfl : 0 = i := congrArg Prod.fst (Option.some.inj hcall)
    cases hanswered
  · rintro _ ⟨⟩
    trivial
  · rintro _ ⟨⟩
    trivial
  · rintro _ ⟨⟩ - cfg ⟨i, -, hedit⟩
    cases hedit

/-- Both devices edit what they have, one after the other; then the second one pulls. -/
def bothEdit : List SettingsEvent :=
  [.start 0 (.save 22 autoPulling), .exec 0 (calm 2), .exec 0 (calm 2), .exec 0 (calm 2),
    .start 1 (.save 21 preferringLatest), .exec 1 (calm 3), .exec 1 (calm 3),
    .start 2 (.deliver 21), .exec 2 (calm 4), .exec 2 (calm 4), .exec 2 (calm 4)]

/-- **An acknowledged edit is dropped**: the server refuses it for its tag, the update is
answered `Ok`, and the pull that the other device's edit causes stores that edit over it. -/
theorem refused_edit_overwritten :
    twoDesktops.New 1 ∧
    Run (settingsProgram 1).Step twoDesktops bothEdit (devicesAfter bothEdit) ∧
    (devicesAfter bothEdit).procs 1 = some (.answered 21 preferringLatest true) ∧
    (devicesAfter bothEdit).shared.latest 21 = some (1, preferringLatest) ∧
    ¬ (devicesAfter bothEdit).shared.Accepted preferringLatest ∧
    ¬ (devicesAfter bothEdit).shared.Holds 21 preferringLatest := by
  refine ⟨twoDesktops_new, Run.of_enabled (by decide), rfl, rfl, by decide, by decide⟩

end Example

/-! ### The settings view of one device -/

/-- A device whose settings view is used, and the server. -/
structure ViewWorld where
  db : Db
  localConfig : Option SyncedConfig
  /-- What the view last loaded. -/
  loaded : Option SyncedConfig
  /-- What it last submitted. -/
  submitted : Option SyncedConfig

/-- What happens next in the settings view. -/
inductive ViewEvent
  | getConfig
  | updateConfig (cfg : SyncedConfig) (seed draw : Uuid)
  /-- Another device, which writes no config, reads the one of the account. -/
  | otherRead (seed : Uuid)

/-- `update_config` as one call, with the server in reach: the server afterwards, and the
local config. -/
def updateConfig (db : Db) (account : AccountId) (cfg : SyncedConfig) (seed draw : Uuid) :
    Db × SyncedConfig :=
  match db.putConfig account cfg seed draw with
  | (db', .ok updated) => (db', updated)
  | (db', .error _) => (db', cfg)

/-- **`update_config` is its statements.** -/
theorem execSettings_update (account : AccountId) (s : SettingsState) (i : ℕ)
    (device : DeviceId) (cfg : SyncedConfig) {d : SettingsDraw} (hsaved : d.saved = true)
    (hanswered : d.delivery = .answered) :
    let exec := fun x : SettingsState × SettingsPc => execSettings account x.1 i x.2 d
    let (s', pc) := exec (exec (exec (s, .save device cfg)))
    (s'.db, s'.localConfig device) =
        ((updateConfig s.db account cfg d.seed d.draw).1,
          some (updateConfig s.db account cfg d.seed d.draw).2) ∧
      pc = .answered device cfg true := by
  have hdelivered : d.delivery ≠ .lost := by simp [hanswered]
  cases hput : s.db.putConfig account cfg d.seed d.draw with
  | mk db reply =>
      cases reply with
      | ok updated =>
          simp [execSettings, updateConfig, SettingsState.putConfig, SettingsState.setLocal,
            hsaved, hanswered, hput]
      | error e =>
          simp [execSettings, updateConfig, SettingsState.putConfig, SettingsState.setLocal,
            hsaved, hdelivered, hput]

namespace ViewWorld

/-- The view submits what it has edited, with the tag it loaded. -/
def Enabled (w : ViewWorld) : ViewEvent → Prop
  | .getConfig | .otherRead _ => True
  | .updateConfig cfg _ _ => ∃ v ∈ w.loaded, cfg.tag = v.tag

/-- The state after an event. -/
def next (account : AccountId) (w : ViewWorld) : ViewEvent → ViewWorld
  | .getConfig => { w with loaded := some (w.localConfig.getD default) }
  | .updateConfig cfg seed draw =>
      let (db, stored) := updateConfig w.db account cfg seed draw
      { w with db, localConfig := some stored, submitted := some cfg }
  | .otherRead seed => { w with db := (w.db.getOrSeedConfig account seed).1 }

/-- A device that has just been paired: what it has stored or loaded before has no tag.  The
account may have a config; its tags are drawn. -/
structure New (w : ViewWorld) (account : AccountId) : Prop where
  keyed : w.db.Keyed account
  localConfig : ∀ c ∈ w.localConfig, c.tag = ""
  loaded : ∀ c ∈ w.loaded, c.tag = ""
  submitted : w.submitted = none
  tags : ∀ c ∈ w.db.readConfig account, ∃ u, c.tag = Uuid.text u

/-- The server stores what was last submitted, up to the tag. -/
def Synced (account : AccountId) (w : ViewWorld) : Prop :=
  ∀ cfg ∈ w.submitted, ∃ c ∈ w.db.readConfig account, c.SameUpToTag cfg

/-- What is submitted is what the server stores anyway, or seeds. -/
def AlreadyStored (account : AccountId) (w : ViewWorld) : ViewEvent → Prop
  | .getConfig | .otherRead _ => True
  | .updateConfig cfg _ _ => ((w.db.readConfig account).getD default).SameUpToTag cfg

/-- The device never gets to know a tag of the server. -/
structure Untagged (account : AccountId) (w : ViewWorld) : Prop where
  keyed : w.db.Keyed account
  localConfig : ∀ c ∈ w.localConfig, c.tag = ""
  loaded : ∀ c ∈ w.loaded, c.tag = ""
  tags : ∀ c ∈ w.db.readConfig account, ∃ u, c.tag = Uuid.text u

end ViewWorld

/-- One event after the other. -/
def ViewStep (account : AccountId) : ViewWorld → ViewEvent → ViewWorld → Prop :=
  guarded ViewWorld.Enabled (ViewWorld.next account)

section View

variable {account : AccountId} {db : Db} {cfg : SyncedConfig} {seed draw : Uuid}
  {w w' : ViewWorld} {ev : ViewEvent}

theorem configOrSeed_tag (htags : ∀ c ∈ db.readConfig account, ∃ u, c.tag = Uuid.text u)
    (seed : Uuid) : ∃ u, (db.configOrSeed account seed).tag = Uuid.text u := by
  unfold Db.configOrSeed
  cases hread : db.readConfig account with
  | none => exact ⟨seed, rfl⟩
  | some c => exact htags c hread

theorem configOrSeed_sameUpToTag (seed : Uuid) :
    (db.configOrSeed account seed).SameUpToTag ((db.readConfig account).getD default) := by
  unfold Db.configOrSeed
  cases db.readConfig account with
  | none => simp [SyncedConfig.SameUpToTag, SyncedConfig.withTag]
  | some c => simp [SyncedConfig.SameUpToTag]

/-- A config that is stored is not seeded again. -/
theorem seededDb_of_read {c : SyncedConfig} (hread : db.readConfig account = some c)
    (seed : Uuid) : db.seededDb account seed = db := by
  rw [Db.seededDb, hread]
  rfl

theorem seededDb_tags (keyed : db.Keyed account)
    (htags : ∀ c ∈ db.readConfig account, ∃ u, c.tag = Uuid.text u) (seed : Uuid) :
    ∀ c ∈ (db.seededDb account seed).readConfig account, ∃ u, c.tag = Uuid.text u := by
  intro c hc
  obtain rfl := Option.some.inj ((Db.getOrSeedConfig_spec keyed seed).2.symm.trans hc)
  exact configOrSeed_tag htags seed

/-- **A put without a tag is refused**, and leaves what was stored, or the default. -/
theorem updateConfig_untagged (keyed : db.Keyed account) (htag : cfg.tag = "")
    (htags : ∀ c ∈ db.readConfig account, ∃ u, c.tag = Uuid.text u) (seed draw : Uuid) :
    updateConfig db account cfg seed draw = (db.seededDb account seed, cfg) := by
  rcases Db.putConfig_spec keyed cfg seed draw with ⟨hsame, -⟩ | ⟨-, e, hput⟩
  · obtain ⟨u, hu⟩ := configOrSeed_tag htags seed
    rw [htag, hu] at hsame
    exact absurd hsame.symm (Uuid.text_ne_empty u)
  · simp only [updateConfig, hput]

/-- On a device without a tag an update is stored and answered, and the server keeps what it has. -/
theorem ViewWorld.next_update (untagged : w.Untagged account)
    (enabled : w.Enabled (.updateConfig cfg seed draw)) :
    cfg.tag = "" ∧ w.next account (.updateConfig cfg seed draw) =
      { w with
        db := w.db.seededDb account seed
        localConfig := some cfg
        submitted := some cfg } := by
  obtain ⟨v, hv, htag⟩ := enabled
  rw [untagged.loaded v hv] at htag
  refine ⟨htag, ?_⟩
  simp only [ViewWorld.next, updateConfig_untagged untagged.keyed htag untagged.tags]

/-- A step of the config loop teaches the device no tag of the server. -/
theorem ViewStep.untagged (untagged : w.Untagged account) (step : ViewStep account w ev w') :
    w'.Untagged account := by
  obtain ⟨enabled, rfl⟩ := step
  cases ev with
  | getConfig =>
      refine ⟨untagged.keyed, untagged.localConfig, ?_, untagged.tags⟩
      intro c hc
      obtain rfl := Option.some.inj hc
      cases hlocal : w.localConfig with
      | none => rfl
      | some c => exact untagged.localConfig c hlocal
  | updateConfig cfg seed draw =>
      obtain ⟨htag, hnext⟩ := ViewWorld.next_update untagged enabled
      rw [hnext]
      refine ⟨untagged.keyed.seededDb, ?_, untagged.loaded,
        seededDb_tags untagged.keyed untagged.tags seed⟩
      intro c hc
      obtain rfl := Option.some.inj hc
      exact htag
  | otherRead seed =>
      simp only [ViewWorld.next, (Db.getOrSeedConfig_spec untagged.keyed seed).1]
      exact ⟨untagged.keyed.seededDb, untagged.localConfig, untagged.loaded,
        seededDb_tags untagged.keyed untagged.tags seed⟩

/-- **Exactly when the edits of a lone device reach the server.**  For every run of loads and
saves of the settings view on a freshly paired device, with reads of other devices anywhere
in between: after every save the server stores what was submitted, up to the tag, if and only
if every save submits what the server stores already (the default, where it stores
nothing). -/
theorem lone_device_synced_iff {w₀ : ViewWorld} {trace : List ViewEvent}
    (new : w₀.New account) :
    Run (into (ViewStep account) (ViewWorld.Synced account)) w₀ trace w ↔
      Run (under (ViewStep account) (ViewWorld.AlreadyStored account)) w₀ trace w := by
  refine Run.into_iff_under_of_invariant (I := ViewWorld.Untagged account)
    (fun _ _ _ untagged step => step.untagged untagged)
    ⟨new.keyed, new.localConfig, new.loaded, new.tags⟩
    (by simp [ViewWorld.Synced, new.submitted]) ?_
  rintro w ev w' untagged synced ⟨enabled, rfl⟩
  cases ev with
  | getConfig => exact iff_of_true synced trivial
  | otherRead seed =>
      refine iff_of_true ?_ trivial
      intro cfg hcfg
      obtain ⟨c, hc, hsame⟩ := synced cfg hcfg
      refine ⟨c, ?_, hsame⟩
      simp only [ViewWorld.next, (Db.getOrSeedConfig_spec untagged.keyed seed).1]
      rw [seededDb_of_read hc seed]
      exact hc
  | updateConfig cfg seed draw =>
      obtain ⟨-, hnext⟩ := ViewWorld.next_update untagged enabled
      have hread := (Db.getOrSeedConfig_spec untagged.keyed seed).2
      have hsame : (w.db.configOrSeed account seed).SameUpToTag _ :=
        configOrSeed_sameUpToTag seed
      rw [hnext]
      constructor
      · intro h
        obtain ⟨c, hc, hstored⟩ := h cfg rfl
        obtain rfl := Option.some.inj (hread.symm.trans hc)
        exact hsame.symm.trans hstored
      · intro hstored cfg' hcfg'
        obtain rfl := Option.some.inj hcfg'
        exact ⟨_, hread, hsame.trans hstored⟩

end View

section ViewExample

/-- A device that has just been paired; the account has no config yet. -/
def pairedDevice : ViewWorld where
  db :=
    { accounts := [1], devices := [], blobs := [], games := [], versions := [], config := [],
      resolvedConflicts := [] }
  localConfig := none
  loaded := none
  submitted := none

theorem pairedDevice_new : pairedDevice.New 1 :=
  ⟨⟨by decide, List.nodup_nil⟩, by simp [pairedDevice], by simp [pairedDevice], rfl,
    by simp [pairedDevice, Db.readConfig]⟩

/-- The settings are saved as they are. -/
def saveUnchanged : List ViewEvent :=
  [.getConfig, .updateConfig default 5 6]

theorem saveUnchanged_synced :
    Run (into (ViewStep 1) (ViewWorld.Synced 1)) pairedDevice saveUnchanged
      (saveUnchanged.foldl (ViewWorld.next 1) pairedDevice) :=
  (lone_device_synced_iff pairedDevice_new).mpr (Run.under_of_enabled (Run.of_enabled
    ⟨⟨trivial, trivial⟩, ⟨⟨_, rfl, rfl⟩, rfl⟩, trivial⟩))

/-- One setting is changed. -/
def saveChanged : List ViewEvent :=
  [.getConfig, .updateConfig { (default : SyncedConfig) with autopullPolicy := .auto } 5 6]

/-- **The first edit does not reach the server**: it carries the empty tag of the default
config, and the server has seeded another one. -/
theorem first_edit_not_synced :
    pairedDevice.New 1 ∧
    Run (ViewStep 1) pairedDevice saveChanged
      (saveChanged.foldl (ViewWorld.next 1) pairedDevice) ∧
    (saveChanged.foldl (ViewWorld.next 1) pairedDevice).db.readConfig 1 =
      some ((default : SyncedConfig).withTag (Uuid.text 5)) ∧
    ¬ ViewWorld.Synced 1 (saveChanged.foldl (ViewWorld.next 1) pairedDevice) := by
  have hread : (saveChanged.foldl (ViewWorld.next 1) pairedDevice).db.readConfig 1 =
      some ((default : SyncedConfig).withTag (Uuid.text 5)) := by decide
  refine ⟨pairedDevice_new, Run.of_enabled ⟨trivial, ⟨_, rfl, rfl⟩, trivial⟩, hread, ?_⟩
  intro synced
  obtain ⟨c, hc, hsame⟩ := synced { (default : SyncedConfig) with autopullPolicy := .auto } rfl
  obtain rfl := Option.some.inj (hread.symm.trans hc)
  exact absurd hsame (by decide)

end ViewExample

end Savr
