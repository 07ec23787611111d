import Savr.Lib.Interleaving
import Savr.Server.Api

/-!
# The synced config

`get_or_seed_config`, `seed_default_config` and `put_config` of `savr-server/src/db.rs`.  No
transaction spans their statements: a put reads the tag, compares it, and updates the row
under the condition that the tag is still the one it read; an account without a config gets
the default on the way.

Each function is given twice.  `Db.putConfig` and `Db.getOrSeedConfig` run a call alone, as
the handlers' callers see it; `configProgram` runs the statements of any number of calls in
any order.  `runAlone_put` and `runAlone_get` say that these are the same code.

## Main results

* `config_puts_chained` — no update is lost, for every interleaving.
-/

namespace Savr

open LabelledRun Interleaving

namespace Db

/-- `SELECT tag, data_json FROM config WHERE account_id = ?`. -/
def readConfig (db : Db) (account : AccountId) : Option SyncedConfig :=
  (db.config.find? fun r => r.accountId = account).map ConfigRow.config

/-- `SELECT tag FROM config WHERE account_id = ?`. -/
def configTag (db : Db) (account : AccountId) : Option String :=
  (db.config.find? fun r => r.accountId = account).map ConfigRow.tag

/-- `INSERT OR IGNORE INTO config`; a foreign key is not ignored. -/
def insertConfig (db : Db) (row : ConfigRow) : Except ApiError Db :=
  if db.config.any (fun r => r.accountId = row.accountId) then .ok db
  else if row.accountId ∈ db.accounts then .ok { db with config := db.config ++ [row] }
  else .error (.internal "FOREIGN KEY constraint failed")

/-- One row under the update of `put_config`. -/
def setConfigRow (account : AccountId) (expected : String) (cfg : SyncedConfig)
    (r : ConfigRow) : ConfigRow :=
  if r.accountId = account ∧ r.tag = expected then { r with tag := cfg.tag, data := cfg } else r

/-- `UPDATE config SET tag = ?, data_json = ? WHERE account_id = ? AND tag = ?`, with the
number of rows it affected. -/
def updateConfig (db : Db) (account : AccountId) (expected : String) (cfg : SyncedConfig) :
    Db × ℕ :=
  ({ db with config := db.config.map (setConfigRow account expected cfg) },
    db.config.countP fun r => r.accountId = account ∧ r.tag = expected)

/-- The row `seed_default_config` inserts. -/
def seedRow (account : AccountId) (draw : Uuid) : ConfigRow where
  accountId := account
  tag := Uuid.text draw
  data := (default : SyncedConfig).withTag (Uuid.text draw)

/-- Seed the default config for an account. The statement ignores a row that is there, so it
is read afterwards. -/
def seedDefaultConfig (db : Db) (account : AccountId) (draw : Uuid) :
    Db × Except ApiError SyncedConfig :=
  match db.insertConfig (seedRow account draw) with
  | .error e => (db, .error e)
  | .ok db' =>
      -- a concurrent seed may have won, and its tag is wanted
      (db', match db'.readConfig account with
        | some cfg => .ok cfg
        | none => .error (.internal "config vanished after seed"))

/-- Fetch the account config, seeding a default row on first access. -/
def getOrSeedConfig (db : Db) (account : AccountId) (draw : Uuid) :
    Db × Except ApiError SyncedConfig :=
  match db.readConfig account with
  | some cfg => (db, .ok cfg)
  | none => db.seedDefaultConfig account draw

/-- The guarded update of a put whose tag was found to be the stored one. -/
def storeConfig (db : Db) (account : AccountId) (incoming : SyncedConfig) (storedTag : String)
    (draw : Uuid) : Db × Except ApiError SyncedConfig :=
  let cfg := incoming.withTag (Uuid.text draw)
  let (db', n) := db.updateConfig account storedTag cfg
  if n = 1 then (db', .ok cfg)
  else (db', .error (.configConflict ((db'.configTag account).getD "")))

/-- Optimistic-concurrency update; the draws are the tag of a seed and the new tag. An
account without a config gets the default first, and is compared with that. -/
def putConfig (db : Db) (account : AccountId) (incoming : SyncedConfig) (seed draw : Uuid) :
    Db × Except ApiError SyncedConfig :=
  let (db₁, stored) :=
    match db.configTag account with
    | some tag => (db, Except.ok tag)
    | none =>
        let (db', reply) := db.seedDefaultConfig account seed
        (db', reply.map SyncedConfig.tag)
  match stored with
  | .error e => (db₁, .error e)
  | .ok storedTag =>
      if incoming.tag = storedTag then db₁.storeConfig account incoming storedTag draw
      else (db₁, .error (.configConflict storedTag))

/-! ### The statements -/

/-- The primary key of `config`. -/
def ConfigKey (db : Db) : Prop :=
  (db.config.map ConfigRow.accountId).Nodup

variable {db : Db} {account : AccountId} {cfg c : SyncedConfig} {tag : String} {draw : Uuid}

theorem configTag_eq : db.configTag account = (db.readConfig account).map SyncedConfig.tag := by
  rw [configTag, readConfig, Option.map_map]
  rfl

/-- **Everything the seeding insert can do**: nothing where a config is stored, else store
the default, or fail for an account that does not exist. -/
theorem insertConfig_cases (db : Db) (account : AccountId) (draw : Uuid) :
    ((db.readConfig account).isSome = true ∧ db.insertConfig (seedRow account draw) = .ok db) ∨
    db.readConfig account = none ∧
      ((account ∈ db.accounts ∧
        db.insertConfig (seedRow account draw) =
          .ok { db with config := db.config ++ [seedRow account draw] } ∧
        readConfig { db with config := db.config ++ [seedRow account draw] } account =
          some ((default : SyncedConfig).withTag (Uuid.text draw))) ∨
      (account ∉ db.accounts ∧ ∃ e, db.insertConfig (seedRow account draw) = .error e)) := by
  unfold insertConfig readConfig
  rw [show (seedRow account draw).accountId = account from rfl]
  cases hfind : db.config.find? fun r => r.accountId = account with
  | some row =>
      have hany : db.config.any (fun r => r.accountId = account) = true := by
        rw [List.any_eq_true]
        exact ⟨row, List.mem_of_find?_eq_some hfind, by simpa using List.find?_some hfind⟩
      exact Or.inl ⟨rfl, if_pos hany⟩
  | none =>
      have hany : ¬ db.config.any (fun r => r.accountId = account) = true := by
        rw [List.any_eq_true]
        rintro ⟨row, hrow, hacc⟩
        exact List.find?_eq_none.mp hfind row hrow hacc
      refine Or.inr ⟨rfl, ?_⟩
      rw [if_neg hany]
      by_cases hacc : account ∈ db.accounts
      · refine Or.inl ⟨hacc, if_pos hacc, ?_⟩
        rw [List.find?_append, hfind]
        simp [seedRow, ConfigRow.config, SyncedConfig.withTag]
      · exact Or.inr ⟨hacc, _, if_neg hacc⟩

theorem setConfigRow_accountId (expected : String) (r : ConfigRow) :
    (setConfigRow account expected cfg r).accountId = r.accountId := by
  unfold setConfigRow
  split <;> rfl

/-- The guarded update keeps one row for each account. -/
theorem ConfigKey.updateConfig (key : db.ConfigKey) (expected : String) :
    (db.updateConfig account expected cfg).1.ConfigKey := by
  change ((db.config.map _).map _).Nodup
  rw [List.map_map]
  have hids : ConfigRow.accountId ∘ setConfigRow account expected cfg = ConfigRow.accountId := by
    funext r
    exact setConfigRow_accountId expected r
  rw [hids]
  exact key

/-- So does a seed where there was none. -/
theorem ConfigKey.seeded (key : db.ConfigKey) (hnone : db.readConfig account = none) :
    ConfigKey { db with config := db.config ++ [seedRow account draw] } := by
  change ((db.config ++ [_]).map _).Nodup
  rw [List.map_append, List.nodup_append]
  refine ⟨key, by simp, ?_⟩
  rintro a ha b hb rfl
  obtain ⟨r, hr, hacc⟩ := List.mem_map.mp ha
  obtain rfl : a = account := by simpa [seedRow] using hb
  rw [readConfig, Option.map_eq_none_iff] at hnone
  exact List.find?_eq_none.mp hnone r hr (by simpa using hacc)

/-- The one row of an account. -/
theorem ConfigKey.find (key : db.ConfigKey) {r : ConfigRow} (hr : r ∈ db.config)
    (hacc : r.accountId = account) :
    (db.config.find? fun r => r.accountId = account) = some r := by
  cases hr' : db.config.find? fun r => r.accountId = account with
  | none => exact absurd hacc (by simpa using List.find?_eq_none.mp hr' r hr)
  | some r' =>
      have hacc' : r'.accountId = account := by simpa using List.find?_some hr'
      rw [List.inj_on_of_nodup_map key (List.mem_of_find?_eq_some hr') hr
        (hacc'.trans hacc.symm)]

/-- A tag stands for one row of the account. -/
theorem ConfigKey.countP_eq_one (key : db.ConfigKey) {r : ConfigRow} (hr : r ∈ db.config)
    (hacc : r.accountId = account) :
    (db.config.countP fun r' => r'.accountId = account ∧ r'.tag = r.tag) = 1 := by
  have hone : ∀ r' ∈ db.config, decide (r'.accountId = account ∧ r'.tag = r.tag) = true ↔
      (r' == r) = true := by
    intro r' hr'
    simp only [decide_eq_true_eq, beq_iff_eq]
    constructor
    · exact fun h => List.inj_on_of_nodup_map key hr' hr (h.1.trans hacc.symm)
    · rintro rfl
      exact ⟨hacc, rfl⟩
  rw [List.countP_congr hone]
  exact List.count_eq_one_of_mem key.of_map hr

/-- **What the guarded update does**: it affects the one row if the tag is still the
expected one, and none otherwise. -/
theorem updateConfig_spec (key : db.ConfigKey) (account : AccountId) (expected : String)
    (cfg : SyncedConfig) :
    (∃ c, db.readConfig account = some c ∧ c.tag = expected ∧
      (db.updateConfig account expected cfg).2 = 1 ∧
      (db.updateConfig account expected cfg).1.readConfig account = some cfg) ∨
    ((∀ c, db.readConfig account = some c → c.tag ≠ expected) ∧
      db.updateConfig account expected cfg = (db, 0)) := by
  by_cases hrow : ∃ r ∈ db.config, r.accountId = account ∧ r.tag = expected
  · obtain ⟨r, hr, hacc, rfl⟩ := hrow
    have hfind := key.find hr hacc
    refine Or.inl ⟨r.config, by rw [readConfig, hfind]; rfl, rfl, key.countP_eq_one hr hacc, ?_⟩
    change ((db.config.map _).find? _).map _ = _
    rw [List.find?_map]
    have hkeep : ((fun r : ConfigRow => decide (r.accountId = account)) ∘
        setConfigRow account r.tag cfg) = fun r => decide (r.accountId = account) := by
      funext r'
      rw [Function.comp_apply, setConfigRow_accountId]
    rw [hkeep, hfind]
    simp [setConfigRow, hacc, ConfigRow.config, SyncedConfig.withTag]
  · have hnone : ∀ r ∈ db.config, ¬ (r.accountId = account ∧ r.tag = expected) :=
      fun r hr h => hrow ⟨r, hr, h⟩
    refine Or.inr ⟨fun c hc htag => ?_, ?_⟩
    · obtain ⟨r, hr, rfl⟩ := Option.map_eq_some_iff.mp hc
      exact hnone r (List.mem_of_find?_eq_some hr) ⟨by simpa using List.find?_some hr, htag⟩
    · have hmap : db.config.map (setConfigRow account expected cfg) = db.config := by
        refine (List.map_congr_left fun r hr => ?_).trans (List.map_id _)
        exact if_neg (hnone r hr)
      refine Prod.ext ?_ ?_
      · simp only [updateConfig, hmap]
      · change db.config.countP _ = 0
        rw [List.countP_eq_zero]
        simpa using hnone

/-! ### The calls, run alone -/

/-- The account exists and has at most one config. -/
structure Keyed (db : Db) (account : AccountId) : Prop where
  known : account ∈ db.accounts
  key : db.ConfigKey

/-- What the account has, or is seeded with. -/
def configOrSeed (db : Db) (account : AccountId) (seed : Uuid) : SyncedConfig :=
  (db.readConfig account).getD ((default : SyncedConfig).withTag (Uuid.text seed))

/-- The database after a first access. -/
def seededDb (db : Db) (account : AccountId) (seed : Uuid) : Db :=
  if (db.readConfig account).isSome = true then db
  else { db with config := db.config ++ [seedRow account seed] }

variable {seed : Uuid}

theorem Keyed.seededDb (h : db.Keyed account) : (db.seededDb account seed).Keyed account := by
  unfold Db.seededDb
  split
  · exact h
  next hnone => exact ⟨h.known, h.key.seeded (by simpa using hnone)⟩

/-- **A read** returns what the account has, after seeding it. -/
theorem getOrSeedConfig_spec (h : db.Keyed account) (seed : Uuid) :
    db.getOrSeedConfig account seed =
        (db.seededDb account seed, .ok (db.configOrSeed account seed)) ∧
      (db.seededDb account seed).readConfig account = some (db.configOrSeed account seed) := by
  cases hread : db.readConfig account with
  | some c => simp [getOrSeedConfig, seededDb, configOrSeed, hread]
  | none =>
      rcases insertConfig_cases db account seed with
        ⟨hsome, -⟩ | ⟨-, ⟨-, hinsert, hread'⟩ | ⟨hunknown, -⟩⟩
      · simp [hread] at hsome
      · simp [getOrSeedConfig, seedDefaultConfig, seededDb, configOrSeed, hread, hinsert, hread']
      · exact absurd h.known hunknown

/-- A put first makes sure that there is a config. -/
theorem putConfig_eq (h : db.Keyed account) (incoming : SyncedConfig) :
    db.putConfig account incoming seed draw =
      if incoming.tag = (db.configOrSeed account seed).tag then
        (db.seededDb account seed).storeConfig account incoming
          (db.configOrSeed account seed).tag draw
      else
        (db.seededDb account seed,
          .error (.configConflict (db.configOrSeed account seed).tag)) := by
  have hget := (getOrSeedConfig_spec h seed).1
  unfold putConfig
  cases hread : db.readConfig account with
  | some c => simp [configTag_eq, seededDb, configOrSeed, hread]
  | none =>
      have hseed : db.seedDefaultConfig account seed =
          (db.seededDb account seed, .ok (db.configOrSeed account seed)) := by
        rw [← hget]
        simp [getOrSeedConfig, hread]
      simp [configTag_eq, hread, hseed, Except.map]

/-- **A put** with the tag that is stored stores the config under a new tag; with another
tag it is refused. -/
theorem putConfig_spec (h : db.Keyed account) (incoming : SyncedConfig) (seed draw : Uuid) :
    (incoming.tag = (db.configOrSeed account seed).tag ∧
      ∃ db', db.putConfig account incoming seed draw =
          (db', .ok (incoming.withTag (Uuid.text draw))) ∧ db'.Keyed account ∧
        db'.readConfig account = some (incoming.withTag (Uuid.text draw))) ∨
    (incoming.tag ≠ (db.configOrSeed account seed).tag ∧
      ∃ e, db.putConfig account incoming seed draw = (db.seededDb account seed, .error e)) := by
  rw [putConfig_eq h]
  have hread := (getOrSeedConfig_spec h seed).2
  have keyed : (db.seededDb account seed).Keyed account := h.seededDb
  by_cases htag : incoming.tag = (db.configOrSeed account seed).tag
  · refine Or.inl ⟨htag, ?_⟩
    rw [if_pos htag]
    rcases updateConfig_spec keyed.key account (db.configOrSeed account seed).tag
        (incoming.withTag (Uuid.text draw)) with ⟨c, -, -, hone, hread'⟩ | ⟨hother, -⟩
    · refine ⟨_, ?_, ⟨?_, keyed.key.updateConfig _⟩, hread'⟩
      · simp [storeConfig, hone]
      · exact keyed.known
    · exact absurd rfl (hother _ hread)
  · exact Or.inr ⟨htag, _, if_neg htag⟩

end Db

/-! ### Calls, statement by statement -/

/-- The calls that touch the synced config. -/
inductive ConfigCall
  | get
  | put (incoming : SyncedConfig)
  deriving DecidableEq, Repr

/-- The statement a call executes next. Every call runs each of its statements on its own
connection, so others come in between. -/
inductive ConfigPc
  /-- The `SELECT` it begins with. -/
  | read (call : ConfigCall)
  /-- `INSERT OR IGNORE` of the default. -/
  | seed (call : ConfigCall)
  | reread (call : ConfigCall)
  /-- The guarded `UPDATE`. -/
  | update (incoming : SyncedConfig) (storedTag : String)
  /-- The `SELECT` of the current tag, after a racing writer has rotated it. -/
  | report (incoming : SyncedConfig)
  | done (call : ConfigCall) (reply : Except ApiError SyncedConfig)

/-- A put that succeeded: what it submitted, what it found stored and what it stored. -/
structure ConfigPut where
  call : ℕ
  incoming : SyncedConfig
  replaced : Option SyncedConfig
  stored : SyncedConfig
  deriving DecidableEq, Repr

/-- The database, with a record of what was stored: the config that was there first, and
the puts that succeeded since. -/
structure ConfigStore where
  db : Db
  first : Option SyncedConfig
  puts : List ConfigPut

/-- Every config that has been stored, oldest first. -/
def ConfigStore.history (s : ConfigStore) : List SyncedConfig :=
  s.first.toList ++ s.puts.map ConfigPut.stored

/-- A put that has read the stored tag compares it. -/
def compareTag (incoming : SyncedConfig) (storedTag : String) : ConfigPc :=
  if incoming.tag = storedTag then .update incoming storedTag
  else .done (.put incoming) (.error (.configConflict storedTag))

/-- One statement. What is stored and what it replaced is noted, for the statements about all
puts. -/
def execConfig (account : AccountId) (s : ConfigStore) (i : ℕ) (pc : ConfigPc) (draw : Uuid) :
    ConfigStore × ConfigPc :=
  match pc with
  | .read .get =>
      (s, match s.db.readConfig account with
        | some cfg => .done .get (.ok cfg)
        | none => .seed .get)
  | .read (.put incoming) =>
      (s, match s.db.configTag account with
        | some tag => compareTag incoming tag
        | none => .seed (.put incoming))
  | .seed call =>
      match s.db.insertConfig (Db.seedRow account draw) with
      | .error e => (s, .done call (.error e))
      | .ok db => ({ s with db, first := s.first <|> db.readConfig account }, .reread call)
  | .reread call =>
      (s, match s.db.readConfig account, call with
        | none, _ => .done call (.error (.internal "config vanished after seed"))
        | some cfg, .get => .done .get (.ok cfg)
        | some cfg, .put incoming => compareTag incoming cfg.tag)
  | .update incoming storedTag =>
      let cfg := incoming.withTag (Uuid.text draw)
      let (db, n) := s.db.updateConfig account storedTag cfg
      if n = 1 then
        ({ s with
            db
            puts := s.puts ++
              [{ call := i, incoming, replaced := s.db.readConfig account, stored := cfg }] },
          .done (.put incoming) (.ok cfg))
      else ({ s with db }, .report incoming)
  | .report incoming =>
      (s, .done (.put incoming)
        (.error (.configConflict ((s.db.configTag account).getD ""))))
  | .done call reply => (s, .done call reply)

/-- The calls of one account.  A drawn tag is new. -/
def configProgram (account : AccountId) : Program ConfigStore ℕ ConfigPc Uuid where
  Init pc := ∃ call, pc = .read call
  Ready s _ pc draw :=
    (∀ call reply, pc ≠ .done call reply) ∧ ∀ c ∈ s.history, c.tag ≠ Uuid.text draw
  exec := execConfig account

/-- A call that nothing interrupts. -/
def runAlone (account : AccountId) (seed draw : Uuid) :
    ℕ → ConfigStore × ConfigPc → ConfigStore × ConfigPc
  | 0, x => x
  | n + 1, (s, .seed call) =>
      runAlone account seed draw n (execConfig account s 0 (.seed call) seed)
  | n + 1, (s, pc) => runAlone account seed draw n (execConfig account s 0 pc draw)

section Alone

variable {account : AccountId} {seed draw : Uuid} {s : ConfigStore}

theorem runAlone_done (n : ℕ) (call : ConfigCall) (reply : Except ApiError SyncedConfig) :
    runAlone account seed draw n (s, .done call reply) = (s, .done call reply) := by
  induction n with
  | zero => rfl
  | succ n ih => exact ih

/-- **`get_or_seed_config` is its statements.** -/
theorem runAlone_get :
    ((runAlone account seed draw 3 (s, .read .get)).1.db,
      (runAlone account seed draw 3 (s, .read .get)).2) =
    ((s.db.getOrSeedConfig account seed).1,
      .done .get (s.db.getOrSeedConfig account seed).2) := by
  simp only [Db.getOrSeedConfig, Db.seedDefaultConfig]
  cases hread : s.db.readConfig account with
  | some cfg =>
      have hexec : runAlone account seed draw 3 (s, .read .get) =
          runAlone account seed draw 2 (s, .done .get (.ok cfg)) := by
        simp only [runAlone, execConfig, hread]
      rw [hexec, runAlone_done]
  | none =>
      cases hinsert : s.db.insertConfig (Db.seedRow account seed) with
      | error e => simp [runAlone, execConfig, hread, hinsert]
      | ok db =>
          cases hreread : db.readConfig account with
          | none => simp [runAlone, execConfig, hread, hinsert, hreread]
          | some cfg => simp [runAlone, execConfig, hread, hinsert, hreread]

/-- A put on its own stores its config exactly when the tag is the stored one. -/
theorem runAlone_compareTag (n : ℕ) (incoming : SyncedConfig) (storedTag : String) :
    ((runAlone account seed draw (n + 2) (s, compareTag incoming storedTag)).1.db,
      (runAlone account seed draw (n + 2) (s, compareTag incoming storedTag)).2) =
    if incoming.tag = storedTag then
      ((s.db.storeConfig account incoming storedTag draw).1,
        .done (.put incoming) (s.db.storeConfig account incoming storedTag draw).2)
    else (s.db, .done (.put incoming) (.error (.configConflict storedTag))) := by
  unfold compareTag
  by_cases htag : incoming.tag = storedTag
  · rw [if_pos htag, if_pos htag]
    by_cases hn : (s.db.updateConfig account storedTag
        (incoming.withTag (Uuid.text draw))).2 = 1
    · simp [runAlone, execConfig, Db.storeConfig, hn, runAlone_done]
    · simp [runAlone, execConfig, Db.storeConfig, hn, runAlone_done]
  · rw [if_neg htag, if_neg htag, runAlone_done]

/-- **`put_config` is its statements.** -/
theorem runAlone_put (incoming : SyncedConfig) :
    ((runAlone account seed draw 5 (s, .read (.put incoming))).1.db,
      (runAlone account seed draw 5 (s, .read (.put incoming))).2) =
    ((s.db.putConfig account incoming seed draw).1,
      .done (.put incoming) (s.db.putConfig account incoming seed draw).2) := by
  simp only [Db.putConfig, Db.seedDefaultConfig]
  cases hread : s.db.configTag account with
  | some tag =>
      have hexec : runAlone account seed draw 5 (s, .read (.put incoming)) =
          runAlone account seed draw 4 (s, compareTag incoming tag) := by
        simp only [runAlone, execConfig, hread]
      rw [hexec, runAlone_compareTag 2]
      by_cases htag : incoming.tag = tag <;> simp [htag]
  | none =>
      cases hinsert : s.db.insertConfig (Db.seedRow account seed) with
      | error e => simp [runAlone, execConfig, hread, hinsert, Except.map]
      | ok db =>
          cases hreread : db.readConfig account with
          | none => simp [runAlone, execConfig, hread, hinsert, hreread, Except.map]
          | some cfg =>
              have hexec : runAlone account seed draw 5 (s, .read (.put incoming)) =
                  runAlone account seed draw 2
                    ({ s with db, first := s.first <|> db.readConfig account },
                      compareTag incoming cfg.tag) := by
                simp only [runAlone, execConfig, hread, hinsert, hreread]
              rw [hexec, runAlone_compareTag 0]
              by_cases htag : incoming.tag = cfg.tag <;> simp [hreread, htag, Except.map]

end Alone

/-! ### The chain of puts -/

/-- Each put replaced what the one before it had stored, and named its tag. -/
inductive PutChain (first : SyncedConfig) : List ConfigPut → SyncedConfig → Prop
  | nil : PutChain first [] first
  | snoc {puts : List ConfigPut} {last : SyncedConfig} (p : ConfigPut) :
      PutChain first puts last → p.replaced = some last → p.incoming.tag = last.tag →
      p.stored = p.incoming.withTag p.stored.tag → PutChain first (puts ++ [p]) p.stored

theorem PutChain.last_mem {first last : SyncedConfig} {puts : List ConfigPut}
    (h : PutChain first puts last) : last ∈ first :: puts.map ConfigPut.stored := by
  cases h with
  | nil => exact List.mem_cons_self
  | snoc p _ _ _ _ => simp

namespace ConfigStore

/-- What is stored is the end of the chain: each accepted put replaced what the one before it
stored. -/
structure Linked (account : AccountId) (s : ConfigStore) : Prop where
  key : s.db.ConfigKey
  known : account ∈ s.db.accounts
  empty : s.first = none → s.puts = [] ∧ s.db.readConfig account = none
  chain : ∀ first, s.first = some first →
    ∃ last, s.db.readConfig account = some last ∧ PutChain first s.puts last
  tags : (s.history.map SyncedConfig.tag).Nodup
  calls : (s.puts.map ConfigPut.call).Nodup

/-- The call has not stored a config. -/
def NoPut (s : ConfigStore) (i : ℕ) : Prop :=
  ∀ p ∈ s.puts, p.call ≠ i

/-- What is known of a call by where it is: a put that has answered is in the chain, and a
call that goes on is not. -/
def Asserts (s : ConfigStore) (i : ℕ) : Option ConfigPc → Prop
  | some (.done (.put incoming) (.ok cfg)) =>
      ∃ p ∈ s.puts, p.call = i ∧ p.incoming = incoming ∧ p.stored = cfg
  | some (.done .get (.ok cfg)) => s.NoPut i ∧ cfg ∈ s.history
  | some (.done .get (.error _)) => False
  | some (.reread _) => s.NoPut i ∧ s.first ≠ none
  | some (.update incoming storedTag) => s.NoPut i ∧ incoming.tag = storedTag
  | _ => s.NoPut i

/-- Nothing recorded is lost, and at most the call `i` has stored a config. -/
structure Grows (s s' : ConfigStore) (i : ℕ) : Prop where
  first : s.first ≠ none → s'.first = s.first
  puts : s.puts ⊆ s'.puts
  mine : ∀ p ∈ s'.puts, p ∈ s.puts ∨ p.call = i

variable {account : AccountId} {s s' : ConfigStore} {i j : ℕ} {cfg : SyncedConfig}

theorem Grows.refl (s : ConfigStore) (i : ℕ) : s.Grows s i :=
  ⟨fun _ => rfl, fun _ hp => hp, fun _ hp => Or.inl hp⟩

theorem Grows.history (h : s.Grows s' i) (hcfg : cfg ∈ s.history) : cfg ∈ s'.history := by
  rcases List.mem_append.mp hcfg with hfirst | hputs
  · refine List.mem_append_left _ ?_
    rwa [h.first fun hnone => by simp [hnone] at hfirst]
  · exact List.mem_append_right _ (List.map_subset _ h.puts hputs)

theorem Grows.noPut (h : s.Grows s' i) (hne : j ≠ i) (hnone : s.NoPut j) : s'.NoPut j := by
  intro p hp hcall
  rcases h.mine p hp with hold | hnew
  · exact hnone p hold hcall
  · exact hne (hcall.symm.trans hnew)

/-- What is known of a call stays true while others execute. -/
theorem Grows.asserts (h : s.Grows s' i) (hne : j ≠ i) {pc : Option ConfigPc}
    (hpc : s.Asserts j pc) : s'.Asserts j pc := by
  have hfirst : s.first ≠ none → s'.first ≠ none := fun hsome => by rwa [h.first hsome]
  cases pc with
  | none => exact h.noPut hne hpc
  | some pc =>
      cases pc with
      | read _ | seed _ | report _ => exact h.noPut hne hpc
      | reread _ => exact ⟨h.noPut hne hpc.1, hfirst hpc.2⟩
      | update _ _ => exact ⟨h.noPut hne hpc.1, hpc.2⟩
      | done call reply =>
          cases call with
          | get =>
              cases reply with
              | error e => exact hpc
              | ok cfg => exact ⟨h.noPut hne hpc.1, h.history hpc.2⟩
          | put incoming =>
              cases reply with
              | error e => exact h.noPut hne hpc
              | ok cfg =>
                  obtain ⟨p, hp, hrest⟩ := hpc
                  exact ⟨p, h.puts hp, hrest⟩

theorem asserts_compareTag (hnone : s.NoPut i) (incoming : SyncedConfig) (storedTag : String) :
    s.Asserts i (some (compareTag incoming storedTag)) := by
  unfold compareTag
  split
  · exact ⟨hnone, by assumption⟩
  · exact hnone

/-- The first config is stored. -/
theorem Linked.seeded (h : s.Linked account) (hnone : s.db.readConfig account = none)
    {draw : Uuid}
    (hread : Db.readConfig { s.db with config := s.db.config ++ [Db.seedRow account draw] }
      account = some cfg) :
    Linked account { s with
      db := { s.db with config := s.db.config ++ [Db.seedRow account draw] }
      first := some cfg } := by
  have hempty : s.first = none := by
    cases hfirst : s.first with
    | none => rfl
    | some first =>
        obtain ⟨last, hlast, -⟩ := h.chain first hfirst
        rw [hnone] at hlast
        cases hlast
  obtain ⟨hputs, -⟩ := h.empty hempty
  refine ⟨h.key.seeded hnone, h.known, by simp, ?_, ?_, h.calls⟩
  · rintro first ⟨⟩
    exact ⟨cfg, hread, by rw [hputs]; exact PutChain.nil⟩
  · simp [history, hputs]

/-- The guarded update affected its row. -/
theorem Linked.stored (h : s.Linked account) {incoming last : SyncedConfig} {draw : Uuid}
    (hnone : s.NoPut i) (hfresh : ∀ c ∈ s.history, c.tag ≠ Uuid.text draw)
    (hlast : s.db.readConfig account = some last) (htag : last.tag = incoming.tag)
    (hread : (s.db.updateConfig account incoming.tag
      (incoming.withTag (Uuid.text draw))).1.readConfig account =
        some (incoming.withTag (Uuid.text draw))) :
    Linked account { s with
      db := (s.db.updateConfig account incoming.tag (incoming.withTag (Uuid.text draw))).1
      puts := s.puts ++
        [⟨i, incoming, s.db.readConfig account, incoming.withTag (Uuid.text draw)⟩] } := by
  refine ⟨h.key.updateConfig _, h.known, ?_, ?_, ?_, ?_⟩
  · intro hfirst
    rw [(h.empty hfirst).2] at hlast
    cases hlast
  · intro first hfirst
    obtain ⟨last', hlast', chain⟩ := h.chain first hfirst
    obtain rfl := Option.some.inj (hlast.symm.trans hlast')
    exact ⟨_, hread, chain.snoc ⟨i, incoming, _, _⟩ hlast htag.symm rfl⟩
  · have hhistory : history { s with
        db := (s.db.updateConfig account incoming.tag (incoming.withTag (Uuid.text draw))).1
        puts := s.puts ++
          [⟨i, incoming, s.db.readConfig account, incoming.withTag (Uuid.text draw)⟩] } =
        s.history ++ [incoming.withTag (Uuid.text draw)] := by
      simp [history]
    rw [hhistory, List.map_append, List.nodup_append]
    refine ⟨h.tags, by simp, ?_⟩
    intro a ha b hb
    obtain ⟨c, hc, rfl⟩ := List.mem_map.mp ha
    obtain rfl : b = Uuid.text draw := by simpa [SyncedConfig.withTag] using hb
    exact hfresh c hc
  · rw [List.map_append, List.nodup_append]
    refine ⟨h.calls, by simp, ?_⟩
    intro a ha b hb
    obtain ⟨p, hp, rfl⟩ := List.mem_map.mp ha
    obtain rfl : b = i := by simpa using hb
    exact hnone p hp

theorem Linked.first_ne_none (h : s.Linked account) (hread : s.db.readConfig account = some cfg) :
    s.first ≠ none := by
  intro hfirst
  rw [(h.empty hfirst).2] at hread
  cases hread

theorem Linked.mem_history (h : s.Linked account) (hread : s.db.readConfig account = some cfg) :
    cfg ∈ s.history := by
  obtain ⟨first, hfirst⟩ := Option.ne_none_iff_exists'.mp (h.first_ne_none hread)
  obtain ⟨last, hlast, chain⟩ := h.chain first hfirst
  obtain rfl := Option.some.inj (hread.symm.trans hlast)
  rw [history, hfirst]
  exact chain.last_mem

/-- What one statement leaves: the chain, what is known of its call, and the records; and it
changes the stored config only where there was none, or as the last statement of a put that
succeeds. -/
structure Executed (account : AccountId) (s : ConfigStore) (i : ℕ) (s' : ConfigStore)
    (pc : ConfigPc) : Prop where
  linked : s'.Linked account
  asserts : s'.Asserts i (some pc)
  grows : s.Grows s' i
  seeded : ∀ first, s'.first = some first → s.first = some first ∨
    ∃ draw, first = (default : SyncedConfig).withTag (Uuid.text draw)
  config : s'.db.readConfig account = s.db.readConfig account ∨
    s.db.readConfig account = none ∨ ∃ incoming cfg, pc = .done (.put incoming) (.ok cfg)

/-- A statement that reads. -/
theorem Linked.reads (h : s.Linked account) {pc : ConfigPc} (hpc : s.Asserts i (some pc)) :
    Executed account s i s pc :=
  ⟨h, hpc, Grows.refl s i, fun _ hfirst => Or.inl hfirst, Or.inl rfl⟩

/-- Seeding begins the chain, or finds one. -/
theorem Linked.execSeed (h : s.Linked account) (call : ConfigCall) (draw : Uuid)
    (hnone : s.NoPut i) :
    Executed account s i (execConfig account s i (.seed call) draw).1
      (execConfig account s i (.seed call) draw).2 := by
  rcases s.db.insertConfig_cases account draw with
    ⟨hsome, hinsert⟩ | ⟨hread, ⟨-, hinsert, hread'⟩ | ⟨hacc, -⟩⟩
  · obtain ⟨cfg, hcfg⟩ := Option.isSome_iff_exists.mp hsome
    obtain ⟨first, hfirst⟩ := Option.ne_none_iff_exists'.mp (h.first_ne_none hcfg)
    have hkeep : (s.first <|> s.db.readConfig account) = s.first := by
      rw [hfirst]
      rfl
    have hexec : execConfig account s i (.seed call) draw = (s, .reread call) := by
      simp only [execConfig, hinsert, hkeep]
    rw [hexec]
    exact h.reads ⟨hnone, by simp [hfirst]⟩
  · have hfirst : s.first = none := by
      by_contra hsome
      obtain ⟨first, hfirst⟩ := Option.ne_none_iff_exists'.mp hsome
      obtain ⟨last, hlast, -⟩ := h.chain first hfirst
      rw [hread] at hlast
      cases hlast
    have hexec : execConfig account s i (.seed call) draw =
        ({ s with
            db := { s.db with config := s.db.config ++ [Db.seedRow account draw] }
            first := some ((default : SyncedConfig).withTag (Uuid.text draw)) },
          .reread call) := by
      simp only [execConfig, hinsert, hfirst, hread']
      rfl
    rw [hexec]
    exact ⟨h.seeded hread hread', ⟨hnone, by simp⟩,
      ⟨fun hsome => absurd hfirst hsome, fun _ hp => hp, fun _ hp => Or.inl hp⟩,
      fun _ hseed => Or.inr ⟨draw, (Option.some.inj hseed).symm⟩, Or.inr (Or.inl hread)⟩
  · exact absurd h.known hacc

/-- An update of the row with the tag is the next link. -/
theorem Linked.execUpdate (h : s.Linked account) (incoming : SyncedConfig) (draw : Uuid)
    (hnone : s.NoPut i) (hfresh : ∀ c ∈ s.history, c.tag ≠ Uuid.text draw) :
    Executed account s i (execConfig account s i (.update incoming incoming.tag) draw).1
      (execConfig account s i (.update incoming incoming.tag) draw).2 := by
  rcases Db.updateConfig_spec h.key account incoming.tag (incoming.withTag (Uuid.text draw))
    with ⟨last, hlast, htag, hone, hread⟩ | ⟨-, hzero⟩
  · have hexec : execConfig account s i (.update incoming incoming.tag) draw =
        ({ s with
            db := (s.db.updateConfig account incoming.tag
              (incoming.withTag (Uuid.text draw))).1
            puts := s.puts ++
              [⟨i, incoming, s.db.readConfig account, incoming.withTag (Uuid.text draw)⟩] },
          .done (.put incoming) (.ok (incoming.withTag (Uuid.text draw)))) := by
      simp [execConfig, hone]
    rw [hexec]
    refine ⟨h.stored hnone hfresh hlast htag hread, ?_, ?_, fun _ hfirst => Or.inl hfirst,
      Or.inr (Or.inr ⟨_, _, rfl⟩)⟩
    · exact ⟨_, List.mem_append_right _ (List.mem_singleton_self _), rfl, rfl, rfl⟩
    · refine ⟨fun _ => rfl, fun p hp => List.mem_append_left _ hp, fun p hp => ?_⟩
      rcases List.mem_append.mp hp with hp | hp
      · exact Or.inl hp
      · rw [List.mem_singleton.mp hp]
        exact Or.inr rfl
  · have hexec : execConfig account s i (.update incoming incoming.tag) draw =
        (s, .report incoming) := by
      simp [execConfig, hzero]
    rw [hexec]
    exact h.reads hnone

/-- **One statement.** -/
theorem Linked.exec (h : s.Linked account) {pc : ConfigPc} {draw : Uuid}
    (hpc : s.Asserts i (some pc)) (ready : (configProgram account).Ready s i pc draw) :
    Executed account s i (execConfig account s i pc draw).1
      (execConfig account s i pc draw).2 := by
  cases pc with
  | read call =>
      cases call with
      | get =>
          cases hread : s.db.readConfig account with
          | none =>
              simp only [execConfig, hread]
              exact h.reads hpc
          | some cfg =>
              simp only [execConfig, hread]
              exact h.reads ⟨hpc, h.mem_history hread⟩
      | put incoming =>
          cases htag : s.db.configTag account with
          | none =>
              simp only [execConfig, htag]
              exact h.reads hpc
          | some tag =>
              simp only [execConfig, htag]
              exact h.reads (asserts_compareTag hpc incoming tag)
  | seed call => exact h.execSeed call draw hpc
  | reread call =>
      obtain ⟨hnone, hsome⟩ := hpc
      obtain ⟨first, hfirst⟩ := Option.ne_none_iff_exists'.mp hsome
      obtain ⟨last, hlast, -⟩ := h.chain first hfirst
      cases call with
      | get =>
          simp only [execConfig, hlast]
          exact h.reads ⟨hnone, h.mem_history hlast⟩
      | put incoming =>
          simp only [execConfig, hlast]
          exact h.reads (asserts_compareTag hnone incoming last.tag)
  | update incoming storedTag =>
      obtain ⟨hnone, rfl⟩ := hpc
      exact h.execUpdate incoming draw hnone ready.2
  | report incoming => exact h.reads hpc
  | done call reply => exact absurd rfl (ready.1 call reply)

end ConfigStore

/-! ### Every interleaving -/

/-- The config of an account and the calls on it. -/
abbrev ConfigWorld := World ConfigStore ℕ ConfigPc

/-- A call starts, or one of its statements runs. -/
abbrev ConfigEvent := Event ℕ ConfigPc Uuid

/-- No call has started; the config is there or not. -/
structure ConfigWorld.New (account : AccountId) (w : ConfigWorld) : Prop where
  key : w.shared.db.ConfigKey
  known : account ∈ w.shared.db.accounts
  first : w.shared.first = w.shared.db.readConfig account
  puts : w.shared.puts = []
  procs : ∀ i, w.procs i = none

section Runs

variable {account : AccountId} {w w₀ : ConfigWorld} {trace : List ConfigEvent}

theorem ConfigWorld.New.linked (new : w.New account) : w.shared.Linked account := by
  refine ⟨new.key, new.known, fun hfirst => ?_, fun first hfirst => ?_, ?_, ?_⟩
  · exact ⟨new.puts, new.first.symm.trans hfirst⟩
  · exact ⟨first, new.first.symm.trans hfirst, by rw [new.puts]; exact PutChain.nil⟩
  · rw [ConfigStore.history, new.puts]
    cases w.shared.first <;> simp
  · simp [new.puts]

/-- What holds of the store along every run. -/
theorem config_run (new : w₀.New account) (run : Run (configProgram account).Step w₀ trace w) :
    (w.shared.Linked account ∧ ∀ first, w.shared.first = some first →
      w₀.shared.first = some first ∨
        ∃ draw, first = (default : SyncedConfig).withTag (Uuid.text draw)) ∧
    ∀ i, w.shared.Asserts i (w.procs i) := by
  refine Program.invariant (I := fun s => s.Linked account ∧ ∀ first, s.first = some first →
      w₀.shared.first = some first ∨
        ∃ draw, first = (default : SyncedConfig).withTag (Uuid.text draw))
    (A := ConfigStore.Asserts) ?_ ?_ ?_ run ⟨new.linked, fun _ hfirst => Or.inl hfirst⟩ ?_
  · rintro s i p - hnone ⟨call, rfl⟩
    exact hnone
  · intro s i pc draw h hpc ready
    obtain ⟨hlinked, hasserts, -, hseeded, -⟩ := h.1.exec hpc ready
    refine ⟨⟨hlinked, fun first hfirst => ?_⟩, hasserts⟩
    rcases hseeded first hfirst with hold | hnew
    · exact h.2 first hold
    · exact Or.inr hnew
  · intro s i pc draw j q hne h hpc ready hq
    exact (h.1.exec hpc ready).grows.asserts hne hq
  · intro i
    rw [new.procs i]
    intro p hp
    rw [new.puts] at hp
    cases hp

/-- Only a call that succeeded has a record, and it has one. -/
theorem ConfigStore.Linked.done_of_put {s : ConfigStore} (h : s.Linked account) {p : ConfigPut}
    (hp : p ∈ s.puts) {pc : Option ConfigPc} (hpc : s.Asserts p.call pc) :
    pc = some (.done (.put p.incoming) (.ok p.stored)) := by
  have hrecord : ¬ s.NoPut p.call := fun hnone => hnone p hp rfl
  cases pc with
  | none => exact absurd hpc hrecord
  | some pc =>
      cases pc with
      | read _ | seed _ | report _ => exact absurd hpc hrecord
      | reread _ | update _ _ => exact absurd hpc.1 hrecord
      | done call reply =>
          cases call with
          | get =>
              cases reply with
              | error e => exact hpc.elim
              | ok cfg => exact absurd hpc.1 hrecord
          | put incoming =>
              cases reply with
              | error e => exact absurd hpc hrecord
              | ok cfg =>
                  obtain ⟨q, hq, hcall, rfl, rfl⟩ := hpc
                  rw [List.inj_on_of_nodup_map h.calls hq hp hcall]

/-- A read that is answered returns a config that was stored at some time. -/
theorem ConfigStore.Asserts.get_reply {s : ConfigStore} {i : ℕ}
    {reply : Except ApiError SyncedConfig} (h : s.Asserts i (some (.done .get reply))) :
    ∃ cfg, reply = .ok cfg ∧ (s.first = some cfg ∨ ∃ p ∈ s.puts, p.stored = cfg) := by
  cases reply with
  | error e => exact h.elim
  | ok cfg =>
      refine ⟨cfg, rfl, ?_⟩
      rcases List.mem_append.mp h.2 with hfirst | hput
      · exact Or.inl (by simpa using hfirst)
      · obtain ⟨p, hp, rfl⟩ := List.mem_map.mp hput
        exact Or.inr ⟨p, hp, rfl⟩

/-- **What changes the stored config**: a put that succeeds, or a first access. -/
theorem config_changed {w' : ConfigWorld} {ev : ConfigEvent} (h : w.shared.Linked account)
    (hasserts : ∀ i, w.shared.Asserts i (w.procs i)) (step : (configProgram account).Step w ev w')
    (hchanged : w'.shared.db.readConfig account ≠ w.shared.db.readConfig account) :
    w.shared.db.readConfig account = none ∨ ∃ i draw incoming cfg, ev = .exec i draw ∧
      w'.procs i = some (.done (.put incoming) (.ok cfg)) := by
  rcases step.cases with ⟨i, p, -, -, -, rfl⟩ | ⟨i, draw, pc, rfl, hp, ready, rfl⟩
  · exact absurd rfl hchanged
  · have hpc := hasserts i
    rw [hp] at hpc
    rcases (h.exec hpc ready).config with hsame | hnone | ⟨incoming, cfg, hdone⟩
    · exact absurd hsame hchanged
    · exact Or.inl hnone
    · refine Or.inr ⟨i, draw, incoming, cfg, rfl, ?_⟩
      exact (Function.update_self i _ _).trans (congrArg some hdone)

/-- **No lost update of the synced config**, for every interleaving of the statements of any
number of calls of an account.  Before a config was stored no put succeeds; from the first one
on, the puts that succeed form a chain: each names the tag of the config it replaced, and no two
configs ever had the same tag.  The stored config changes only as a put succeeds or where there
was none, and then to the default; and a read returns that first config or one that a put has
stored. -/
theorem config_puts_chained (new : w₀.New account)
    (run : Run (configProgram account).Step w₀ trace w) :
    (w.shared.first = none →
      w.shared.puts = [] ∧ w.shared.db.readConfig account = none) ∧
    (∀ first, w.shared.first = some first → ∃ last,
      w.shared.db.readConfig account = some last ∧ PutChain first w.shared.puts last) ∧
    (w.shared.history.map SyncedConfig.tag).Nodup ∧
    (w.shared.puts.map ConfigPut.call).Nodup ∧
    (∀ i incoming cfg, w.procs i = some (.done (.put incoming) (.ok cfg)) ↔
      ∃ p ∈ w.shared.puts, p.call = i ∧ p.incoming = incoming ∧ p.stored = cfg) ∧
    (∀ ev w', (configProgram account).Step w ev w' →
      w'.shared.db.readConfig account ≠ w.shared.db.readConfig account →
      w.shared.db.readConfig account = none ∨ ∃ i draw incoming cfg, ev = .exec i draw ∧
        w'.procs i = some (.done (.put incoming) (.ok cfg))) ∧
    (∀ first, w.shared.first = some first → w₀.shared.first = some first ∨
      ∃ draw, first = (default : SyncedConfig).withTag (Uuid.text draw)) ∧
    ∀ i reply, w.procs i = some (.done .get reply) → ∃ cfg, reply = .ok cfg ∧
      (w.shared.first = some cfg ∨ ∃ p ∈ w.shared.puts, p.stored = cfg) := by
  obtain ⟨⟨hlinked, hseeded⟩, hasserts⟩ := config_run new run
  refine ⟨hlinked.empty, hlinked.chain, hlinked.tags, hlinked.calls, ?_,
    fun ev w' step => config_changed hlinked hasserts step, hseeded, ?_⟩
  · intro i incoming cfg
    constructor
    · intro hdone
      have hput := hasserts i
      rwa [hdone] at hput
    · rintro ⟨p, hp, rfl, rfl, rfl⟩
      exact hlinked.done_of_put hp (hasserts p.call)
  · intro i reply hdone
    have hget := hasserts i
    rw [hdone] at hget
    exact hget.get_reply

end Runs

section Example

instance (pc : ConfigPc) : Decidable (∃ call, pc = .read call) :=
  match pc with
  | .read call => isTrue ⟨call, rfl⟩
  | .seed _ | .reread _ | .update _ _ | .report _ | .done _ _ => isFalse (by simp)

instance (pc : ConfigPc) : Decidable (∀ call reply, pc ≠ .done call reply) :=
  match pc with
  | .done call reply => isFalse fun h => h call reply rfl
  | .read _ | .seed _ | .reread _ | .update _ _ | .report _ => isTrue (by simp)

instance (account : AccountId) : DecidablePred (configProgram account).Init :=
  fun pc => inferInstanceAs (Decidable (∃ call, pc = .read call))

instance (account : AccountId) (s : ConfigStore) (i : ℕ) (pc : ConfigPc) (draw : Uuid) :
    Decidable ((configProgram account).Ready s i pc draw) :=
  inferInstanceAs (Decidable ((∀ call reply, pc ≠ .done call reply) ∧
    ∀ c ∈ s.history, c.tag ≠ Uuid.text draw))

/-- An account that has not accessed its config yet, so the first access seeds it. -/
def unseededWorld : ConfigWorld where
  shared :=
    { db :=
        { accounts := [1], devices := [], blobs := [], games := [], versions := [], config := [],
          resolvedConflicts := [] }
      first := none
      puts := [] }
  procs := fun _ => none

theorem unseededWorld_new : unseededWorld.New 1 :=
  ⟨List.nodup_nil, by decide, rfl, rfl, fun _ => rfl⟩

/-- The state after these statements, from an account without a config. -/
def unseededAfter (trace : List ConfigEvent) : ConfigWorld :=
  trace.foldl (configProgram 1).next unseededWorld

theorem run_unseeded (trace : List ConfigEvent)
    (enabled : EnabledAll (configProgram 1).Enabled (configProgram 1).next unseededWorld trace) :
    Run (configProgram 1).Step unseededWorld trace (unseededAfter trace) :=
  Run.of_enabled enabled

/-- The first access is a put with the default config, which has no tag. -/
def untaggedPut : List ConfigEvent :=
  [.start 0 (.read (.put default)), .exec 0 1, .exec 0 1, .exec 0 2]

/-- Two reads find no config; one of them seeds it, and a put replaces it before the other
reads again. -/
def racingSeed : List ConfigEvent :=
  [.start 0 (.read .get), .start 1 (.read .get), .exec 0 1, .exec 1 1, .exec 1 1, .exec 1 2,
   .start 2 (.read (.put { (default : SyncedConfig) with
      tag := Uuid.text 1, autopullPolicy := .auto })),
   .exec 2 2, .exec 2 2, .exec 0 3, .exec 0 3]

/-- Two first accesses at once agree on the seed, and a put is chained to it. -/
theorem racing_seed_chained :
    ∃ cfg, (unseededAfter racingSeed).procs 0 = some (.done .get (.ok cfg)) ∧
      ∃ p ∈ (unseededAfter racingSeed).shared.puts, p.stored = cfg := by
  have chained := config_puts_chained unseededWorld_new
    (run_unseeded racingSeed (by decide))
  obtain ⟨-, -, -, -, -, -, -, hget⟩ := chained
  obtain ⟨cfg, hcfg, hcases⟩ := hget 0 _ rfl
  refine ⟨cfg, by rw [← hcfg]; rfl, hcases.resolve_left ?_⟩
  obtain rfl := Except.ok.inj hcfg
  decide

/-- A failed call leaves the stored config as it was, and a read that found no config
returns the one that was seeded: neither holds of every run. -/
theorem first_access_seeds_and_races :
    (¬ ∀ (account : AccountId) (w₀ w : ConfigWorld) (trace : List ConfigEvent),
      w₀.New account → Run (configProgram account).Step w₀ trace w →
      ∀ i call e, w.procs i = some (.done call (.error e)) →
      ∀ pre draw post w₁ w₂, trace = pre ++ .exec i draw :: post →
        Run (configProgram account).Step w₀ pre w₁ →
        (configProgram account).Step w₁ (.exec i draw) w₂ →
        w₂.shared.db.readConfig account = w₁.shared.db.readConfig account) ∧
    ¬ ∀ (account : AccountId) (w₀ w : ConfigWorld) (trace : List ConfigEvent),
      w₀.New account → Run (configProgram account).Step w₀ trace w →
      ∀ i cfg, w.procs i = some (.done .get (.ok cfg)) →
      ∀ pre draw post w₁, trace = pre ++ .exec i draw :: post →
        Run (configProgram account).Step w₀ pre w₁ → w₁.procs i = some (.read .get) →
        w₁.shared.db.readConfig account = none → w.shared.first = some cfg := by
  constructor
  · intro hevery
    have hrun := run_unseeded untaggedPut (by decide)
    have hpre := run_unseeded (untaggedPut.take 2) (by decide)
    have hsame := hevery 1 unseededWorld _ untaggedPut unseededWorld_new hrun 0 _ _ rfl
      (untaggedPut.take 2) 1 [.exec 0 2] _ (unseededAfter (untaggedPut.take 3)) rfl hpre
      ⟨by decide, rfl⟩
    exact absurd hsame (by decide)
  · intro hevery
    have hrun := run_unseeded racingSeed (by decide)
    have hpre := run_unseeded (racingSeed.take 2) (by decide)
    have hfirst := hevery 1 unseededWorld _ racingSeed unseededWorld_new hrun 0 _ rfl
      (racingSeed.take 2) 1 (racingSeed.drop 3) _ rfl hpre rfl (by decide)
    exact absurd hfirst (by decide)

end Example

end Savr
