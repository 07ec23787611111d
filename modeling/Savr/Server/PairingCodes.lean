import Savr.Core.Rfc3339
import Savr.Core.Types
import Savr.Lib.Interleaving

/-!
# Pairing codes

`create_pairing_code` and `redeem_pairing_code` of `savr-server/src/db.rs`, statement by
statement.  A call that redeems reads the active rows once and then verifies and burns them
one by one, while other calls do the same; the burn is a compare-and-set on `used`.

## Main results

* `PairingCodesStep.later` — what a statement leaves of the rows.
* `codes_single_use` — every redemption has a row of its own.
-/

namespace Savr

open LabelledRun Interleaving

/-- A row of `pairing_codes`. Times are stored as text and compared as text. -/
structure PairingCodeRow where
  id : Uuid
  accountId : AccountId
  /-- The argon2 hash of the one-time code. -/
  codeHash : String
  expiresAt : String
  used : Bool
  createdAt : String
  deriving DecidableEq, Repr

/-- The query's condition, `used = 0 AND expires_at > ?`. -/
def PairingCodeRow.active (now : String) (r : PairingCodeRow) : Bool :=
  !r.used && textLt now r.expiresAt

/-- The table, with its primary key. -/
structure PairingTable where
  rows : List PairingCodeRow
  unique : (rows.map PairingCodeRow.id).Nodup

/-- `MAX_ACTIVE_PAIRING_CODES`, for each account. -/
def maxActivePairingCodes : ℕ := 5

/-- `PAIRING_TTL_SECS`. -/
def pairingTtlSecs : ℕ := 5 * 60

namespace PairingTable

/-- The `UPDATE` of a burn on one row. -/
def burnRow (id : Uuid) (r : PairingCodeRow) : PairingCodeRow :=
  if r.id = id ∧ r.used = false then { r with used := true } else r

theorem burnRow_id (id : Uuid) (r : PairingCodeRow) : (burnRow id r).id = r.id := by
  unfold burnRow
  split_ifs <;> rfl

/-- `UPDATE pairing_codes SET used = 1 WHERE id = ? AND used = 0`, and the rows affected: one
for the call that uses the code, none for any other. -/
def burn (t : PairingTable) (id : Uuid) : PairingTable × ℕ :=
  ({ rows := t.rows.map (burnRow id)
     unique := by
       have hids : (t.rows.map (burnRow id)).map PairingCodeRow.id =
           t.rows.map PairingCodeRow.id := by
         rw [List.map_map]
         exact List.map_congr_left fun r _ => burnRow_id id r
       rw [hids]
       exact t.unique },
    t.rows.countP fun r => r.id = id ∧ r.used = false)

/-- `INSERT INTO pairing_codes`; the id is a primary key, so a second row with it is refused. -/
def insert (t : PairingTable) (row : PairingCodeRow) : Option PairingTable :=
  if hfresh : row.id ∈ t.rows.map PairingCodeRow.id then none
  else some
    { rows := t.rows ++ [row]
      unique := by
        rw [List.map_append, List.nodup_append]
        refine ⟨t.unique, by simp, ?_⟩
        rintro a ha b hb rfl
        obtain rfl : a = row.id := by simpa using hb
        exact hfresh ha }

end PairingTable

/-- Where a call of `redeem_pairing_code` is. The rows are read once and verified one by one;
meanwhile other calls may use them up. -/
inductive RedeemPhase
  | select
  /-- The rows that were read and not verified yet. -/
  | scan (rows : List PairingCodeRow)
  /-- The code matches the row. -/
  | burn (row : PairingCodeRow) (rest : List PairingCodeRow)
  /-- `Ok(Some(account))`, for the account of the row. -/
  | redeemed (row : PairingCodeRow)
  /-- `Ok(None)`. -/
  | refused
  | failed
  deriving DecidableEq, Repr

/-- Where a call of `create_pairing_code` is. -/
inductive CreatePhase
  | count
  | insert
  | created
  | tooMany
  | failed
  deriving DecidableEq, Repr

/-- A call, with its arguments and what it takes as now. -/
inductive PairingCall
  | redeem (code : String) (now : UtcTime) (phase : RedeemPhase)
  | create (account : AccountId) (now expiresAt : UtcTime) (phase : CreatePhase)
  deriving DecidableEq

/-- What the environment decides about a statement: whether it succeeds, and what it returns
or stores. -/
structure PairingDraw where
  /-- The statement succeeds. -/
  ok : Bool
  /-- The order in which a `SELECT` returns its rows. -/
  rows : List PairingCodeRow
  /-- The id and the hash of a new code. -/
  id : Uuid
  codeHash : String
  deriving DecidableEq

namespace PairingCall

/-- Calls start with their first statement; a code expires when its time to live is over. -/
def Init : PairingCall → Prop
  | redeem _ _ phase => phase = .select
  | create _ now expiresAt phase =>
      phase = .count ∧ expiresAt.instant = now.instant + pairingTtlSecs * 10 ^ 9

instance : DecidablePred Init
  | redeem _ _ phase => inferInstanceAs (Decidable (phase = .select))
  | create _ now expiresAt phase => inferInstanceAs (Decidable
      (phase = .count ∧ expiresAt.instant = now.instant + pairingTtlSecs * 10 ^ 9))

/-- A `SELECT` returns the active rows, in some order; a call that has returned does
nothing any more. -/
def Ready (t : PairingTable) : PairingCall → PairingDraw → Prop
  | redeem _ now .select, draw => draw.rows.Perm (t.rows.filter (·.active now.toRfc3339))
  | redeem _ _ (.scan _), _ | redeem _ _ (.burn _ _), _ => True
  | create _ _ _ .count, _ | create _ _ _ .insert, _ => True
  | _, _ => False

instance (t : PairingTable) : ∀ p draw, Decidable (Ready t p draw)
  | redeem _ now .select, draw =>
      inferInstanceAs (Decidable (draw.rows.Perm (t.rows.filter (·.active now.toRfc3339))))
  | redeem _ _ (.scan _), _ | redeem _ _ (.burn _ _), _ => isTrue trivial
  | create _ _ _ .count, _ | create _ _ _ .insert, _ => isTrue trivial
  | redeem _ _ (.redeemed _), _ | redeem _ _ .refused, _ | redeem _ _ .failed, _
  | create _ _ _ .created, _ | create _ _ _ .tooMany, _ | create _ _ _ .failed, _ =>
      isFalse id

variable (verify : String → String → Bool)

/-- One statement of `redeem_pairing_code`, or the verification of one row. A row that
another call has burnt is passed over. -/
def execRedeem (t : PairingTable) (code : String) (draw : PairingDraw) :
    RedeemPhase → PairingTable × RedeemPhase
  | .select => (t, if draw.ok then .scan draw.rows else .failed)
  | .scan [] => (t, .refused)
  | .scan (r :: rest) => (t, if verify code r.codeHash then .burn r rest else .scan rest)
  | .burn r rest =>
      if draw.ok then
        if (t.burn r.id).2 = 1 then ((t.burn r.id).1, .redeemed r)
        else ((t.burn r.id).1, .scan rest)
      else (t, .failed)
  | phase => (t, phase)

/-- One statement of `create_pairing_code`: count the active codes, then insert. Two calls at
once may both find room. -/
def execCreate (t : PairingTable) (account : AccountId) (now expiresAt : UtcTime)
    (draw : PairingDraw) : CreatePhase → PairingTable × CreatePhase
  | .count =>
      let active := t.rows.countP fun r => r.accountId = account ∧ r.active now.toRfc3339
      (t, if draw.ok then if maxActivePairingCodes ≤ active then .tooMany else .insert
        else .failed)
  | .insert =>
      let row : PairingCodeRow :=
        { id := draw.id, accountId := account, codeHash := draw.codeHash
          expiresAt := expiresAt.toRfc3339, used := false, createdAt := now.toRfc3339 }
      match if draw.ok then t.insert row else none with
      | some t' => (t', .created)
      | none => (t, .failed)
  | phase => (t, phase)

/-- One statement of a call. -/
def exec (t : PairingTable) (draw : PairingDraw) : PairingCall → PairingTable × PairingCall
  | redeem code now phase =>
      (execRedeem verify t code draw phase).map id (redeem code now)
  | create account now expiresAt phase =>
      (execCreate t account now expiresAt draw phase).map id (create account now expiresAt)

end PairingCall

/-- Any number of calls; `verify` is the argon2 verification. -/
def pairingProgram (verify : String → String → Bool) :
    Program PairingTable ℕ PairingCall PairingDraw where
  Init := PairingCall.Init
  Ready t _ p draw := p.Ready t draw
  exec t _ p draw := p.exec verify t draw

instance (verify : String → String → Bool) : DecidablePred (pairingProgram verify).Init :=
  inferInstanceAs (DecidablePred PairingCall.Init)

instance (verify : String → String → Bool) :
    ∀ t i p draw, Decidable ((pairingProgram verify).Ready t i p draw) :=
  fun t _ p draw => inferInstanceAs (Decidable (p.Ready t draw))

/-- The table and the calls on it. -/
abbrev PairingCodesWorld := World PairingTable ℕ PairingCall

/-- One statement of some call. -/
def PairingCodesStep (verify : String → String → Bool) :
    PairingCodesWorld → Event ℕ PairingCall PairingDraw → PairingCodesWorld → Prop :=
  (pairingProgram verify).Step

/-! ## What a statement leaves of the rows -/

namespace PairingTable

variable {t t' t'' : PairingTable} {r row : PairingCodeRow}

/-- Rows stay as they are, but an unused one may become used. -/
def Later (t t' : PairingTable) : Prop :=
  ∀ r ∈ t.rows, r ∈ t'.rows ∨ r.used = false ∧ { r with used := true } ∈ t'.rows

/-- The row that was read is there, used by now or not. -/
def Holds (t : PairingTable) (r : PairingCodeRow) : Prop :=
  r ∈ t.rows ∨ { r with used := true } ∈ t.rows

theorem Later.refl (t : PairingTable) : t.Later t := fun _ hr => .inl hr

theorem Later.trans (h : t.Later t') (h' : t'.Later t'') : t.Later t'' := by
  intro r hr
  rcases h r hr with hr | ⟨hused, hr⟩
  · exact h' r hr
  · rcases h' _ hr with hr | ⟨hfalse, -⟩
    · exact .inr ⟨hused, hr⟩
    · cases hfalse

theorem Later.used (h : t.Later t') (hr : r ∈ t.rows) (hused : r.used = true) : r ∈ t'.rows := by
  rcases h r hr with hr | ⟨hfalse, -⟩
  · exact hr
  · rw [hused] at hfalse
    cases hfalse

theorem Holds.later (h : t.Holds r) (later : t.Later t') : t'.Holds r := by
  rcases h with hr | hr
  · exact (later r hr).imp_right And.right
  · exact .inr (later.used hr rfl)

theorem eq_of_id (hr : r ∈ t.rows) (hrow : row ∈ t.rows) (hid : r.id = row.id) : r = row :=
  List.inj_on_of_nodup_map t.unique hr hrow hid

theorem later_burn (t : PairingTable) (id : Uuid) : t.Later (t.burn id).1 := by
  intro r hr
  have hmem : burnRow id r ∈ (t.burn id).1.rows := List.mem_map_of_mem hr
  unfold burnRow at hmem
  split_ifs at hmem with hcond
  · exact .inr ⟨hcond.2, hmem⟩
  · exact .inl hmem

/-- **A burn that affects a row** found it unused. -/
theorem burn_affected (hholds : t.Holds r) (h : (t.burn r.id).2 = 1) :
    (∃ row ∈ t.rows, row.id = r.id ∧ row.used = false) ∧
      { r with used := true } ∈ (t.burn r.id).1.rows := by
  obtain ⟨row, hrow, hcond⟩ := List.countP_pos_iff.mp (Nat.lt_of_lt_of_eq Nat.one_pos h.symm)
  obtain ⟨hid, hused⟩ : row.id = r.id ∧ row.used = false := by simpa using hcond
  refine ⟨⟨row, hrow, hid, hused⟩, ?_⟩
  rcases hholds with hr | hr
  · obtain rfl := eq_of_id hrow hr hid
    have hmem : burnRow row.id row ∈ (t.burn row.id).1.rows := List.mem_map_of_mem hr
    rwa [burnRow, if_pos ⟨rfl, hused⟩] at hmem
  · rw [eq_of_id hrow hr hid] at hused
    cases hused

theorem later_insert (h : t.insert row = some t') : t.Later t' := by
  unfold insert at h
  split_ifs at h
  cases h
  exact fun r hr => .inl (List.mem_append_left _ hr)

end PairingTable

namespace PairingCall

variable {verify : String → String → Bool} {t : PairingTable} {draw : PairingDraw}

/-- No statement takes a row away or makes a used code unused. -/
theorem later_exec (p : PairingCall) : t.Later (p.exec verify t draw).1 := by
  cases p with
  | redeem code now phase =>
      show t.Later (execRedeem verify t code draw phase).1
      match phase with
      | .scan [] | .scan (_ :: _) | .select | .redeemed _ | .refused | .failed => exact .refl t
      | .burn r rest =>
          rw [execRedeem]
          split_ifs
          · exact PairingTable.later_burn t r.id
          · exact PairingTable.later_burn t r.id
          · exact .refl t
  | create account now expiresAt phase =>
      show t.Later (execCreate t account now expiresAt draw phase).1
      cases phase with
      | insert =>
          rw [execCreate]
          split
          · rename_i t' hinsert
            split_ifs at hinsert
            exact PairingTable.later_insert hinsert
          · exact .refl t
      | count | created | tooMany | failed => exact .refl t

/-- No statement leads back to the start of a call. -/
theorem not_init_exec (p : PairingCall) : ¬ (p.exec verify t draw).2.Init := by
  cases p with
  | redeem code now phase =>
      show (execRedeem verify t code draw phase).2 ≠ .select
      match phase with
      | .scan [] | .redeemed _ | .refused | .failed => simp [execRedeem]
      | .select | .scan (_ :: _) | .burn _ _ =>
          rw [execRedeem]
          split_ifs <;> simp
  | create account now expiresAt phase =>
      have hphase : (execCreate t account now expiresAt draw phase).2 ≠ .count := by
        cases phase with
        | count =>
            rw [execCreate]
            split_ifs <;> simp
        | insert =>
            rw [execCreate]
            split <;> simp
        | created | tooMany | failed => simp [execCreate]
      exact fun h => hphase h.1

end PairingCall

/-! ## What a call knows of its rows -/

/-- The row was active when the call read it, with what the call takes as now, and is still
there. -/
structure PairingTable.Read (t : PairingTable) (now : UtcTime) (r : PairingCodeRow) : Prop where
  unused : r.used = false
  unexpired : textLt now.toRfc3339 r.expiresAt = true
  holds : t.Holds r

/-- What a call knows; the row it has redeemed is used, and was read as unused and unexpired. -/
def RedeemPhase.Knows (verify : String → String → Bool) (t : PairingTable) (code : String)
    (now : UtcTime) : RedeemPhase → Prop
  | scan rows => ∀ r ∈ rows, t.Read now r
  | burn row rest =>
      verify code row.codeHash = true ∧ t.Read now row ∧ ∀ r ∈ rest, t.Read now r
  | redeemed row =>
      verify code row.codeHash = true ∧ t.Read now row ∧ { row with used := true } ∈ t.rows
  | _ => True

/-- The rows a call still works on, or has redeemed. -/
def RedeemPhase.rows : RedeemPhase → List PairingCodeRow
  | scan rows => rows
  | burn row rest => row :: rest
  | redeemed row => [row]
  | _ => []

section Knowledge

variable {verify : String → String → Bool} {t t' : PairingTable} {draw : PairingDraw}
  {code : String} {now : UtcTime} {phase : RedeemPhase} {r : PairingCodeRow}

theorem PairingTable.Read.later (h : t.Read now r) (later : t.Later t') : t'.Read now r :=
  ⟨h.unused, h.unexpired, h.holds.later later⟩

theorem RedeemPhase.Knows.later (h : phase.Knows verify t code now) (later : t.Later t') :
    phase.Knows verify t' code now := by
  cases phase with
  | scan rows => exact fun r hr => (h r hr).later later
  | burn row rest => exact ⟨h.1, h.2.1.later later, fun r hr => (h.2.2 r hr).later later⟩
  | redeemed row => exact ⟨h.1, h.2.1.later later, later.used h.2.2 rfl⟩
  | select | refused | failed => trivial

/-- **One statement of a call** keeps what it knows. -/
theorem RedeemPhase.Knows.exec (h : phase.Knows verify t code now)
    (ready : (PairingCall.redeem code now phase).Ready t draw) :
    (PairingCall.execRedeem verify t code draw phase).2.Knows verify
      (PairingCall.execRedeem verify t code draw phase).1 code now := by
  match phase, h, ready with
  | .select, h, ready =>
      rw [PairingCall.execRedeem]
      split_ifs
      · intro r hr
        obtain ⟨hrow, hactive⟩ := List.mem_filter.mp ((List.Perm.mem_iff ready).mp hr)
        rw [PairingCodeRow.active, Bool.and_eq_true, Bool.not_eq_true'] at hactive
        exact ⟨hactive.1, hactive.2, .inl hrow⟩
      · trivial
  | .scan [], h, _ => trivial
  | .scan (row :: rest), h, _ =>
      obtain ⟨hrow, hrest⟩ := List.forall_mem_cons.mp h
      rw [PairingCall.execRedeem]
      split_ifs with hverify
      · exact ⟨hverify, hrow, hrest⟩
      · exact hrest
  | .burn row rest, ⟨hverify, hrow, hrest⟩, _ =>
      have later := PairingTable.later_burn t row.id
      rw [PairingCall.execRedeem]
      split_ifs with hok haffected
      · exact ⟨hverify, hrow.later later, (PairingTable.burn_affected hrow.holds haffected).2⟩
      · exact fun r hr => (hrest r hr).later later
      · trivial
  | .redeemed row, h, ready => exact ready.elim
  | .refused, h, ready => exact ready.elim
  | .failed, h, ready => exact ready.elim

end Knowledge

/-! ## Runs -/

namespace PairingCodesWorld

/-- The call has returned the account of this row. -/
def Redeemed (w : PairingCodesWorld) (i : ℕ) (code : String) (now : UtcTime)
    (row : PairingCodeRow) : Prop :=
  w.procs i = some (.redeem code now (.redeemed row))

instance (w : PairingCodesWorld) (i : ℕ) (code : String) (now : UtcTime)
    (row : PairingCodeRow) : Decidable (w.Redeemed i code now row) :=
  inferInstanceAs (Decidable (w.procs i = some (.redeem code now (.redeemed row))))

/-- Every call knows its rows, and redeemed rows are different. -/
structure Sound (verify : String → String → Bool) (w : PairingCodesWorld) : Prop where
  knows : ∀ i code now phase, w.procs i = some (.redeem code now phase) →
    phase.Knows verify w.shared code now
  distinct : ∀ i j code code' now now' row row', w.Redeemed i code now row →
    w.Redeemed j code' now' row' → row.id = row'.id → i = j

end PairingCodesWorld

section Runs

variable {verify : String → String → Bool} {w w' w₀ : PairingCodesWorld}
  {ev : Event ℕ PairingCall PairingDraw} {trace : List (Event ℕ PairingCall PairingDraw)}

theorem PairingCodesStep.later (step : PairingCodesStep verify w ev w') :
    w.shared.Later w'.shared := by
  rcases step.cases with ⟨i, p, -, -, -, rfl⟩ | ⟨i, draw, p, -, -, -, rfl⟩
  · exact .refl w.shared
  · exact p.later_exec

theorem later_of_run (run : Run (PairingCodesStep verify) w₀ trace w) :
    w₀.shared.Later w.shared :=
  run.invariant (I := fun w => w₀.shared.Later w.shared)
    (fun _ _ _ h step => h.trans (PairingCodesStep.later step)) (.refl _)

/-- A statement that redeems a row found it unused. -/
theorem unused_of_redeems {t : PairingTable} {draw : PairingDraw} {code : String}
    {now : UtcTime} {phase : RedeemPhase} {row : PairingCodeRow}
    (knows : phase.Knows verify t code now) (hbefore : phase ≠ .redeemed row)
    (hafter : (PairingCall.execRedeem verify t code draw phase).2 = .redeemed row) :
    ∃ r ∈ t.rows, r.id = row.id ∧ r.used = false := by
  match phase, knows, hafter with
  | .select, _, hafter | .scan (_ :: _), _, hafter =>
      rw [PairingCall.execRedeem] at hafter
      split_ifs at hafter
  | .scan [], _, hafter | .refused, _, hafter | .failed, _, hafter => cases hafter
  | .redeemed row', _, hafter => exact absurd hafter hbefore
  | .burn row' rest, ⟨_, hread, _⟩, hafter =>
      rw [PairingCall.execRedeem] at hafter
      split_ifs at hafter with hok haffected
      · cases hafter
        exact (PairingTable.burn_affected hread.holds haffected).1

/-- A call that has redeemed a row had done so before the step, or finds the row unused in
it. -/
theorem PairingCodesStep.redeemed (h : w.Sound verify) (step : PairingCodesStep verify w ev w')
    {i : ℕ} {code : String} {now : UtcTime} {row : PairingCodeRow}
    (hafter : w'.Redeemed i code now row) :
    w.Redeemed i code now row ∨ (∃ draw, ev = .exec i draw) ∧
      ∃ r ∈ w.shared.rows, r.id = row.id ∧ r.used = false := by
  rcases step.procs_cases hafter with hp | ⟨-, hinit, -⟩ | ⟨draw, p, rfl, hp, -, hexec⟩
  · exact .inl hp
  · cases hinit
  · cases p with
    | create account now' expiresAt phase => cases congrArg Prod.snd hexec
    | redeem code' now' phase =>
        obtain ⟨rfl, rfl, hphase⟩ := PairingCall.redeem.inj (congrArg Prod.snd hexec)
        by_cases hbefore : phase = .redeemed row
        · subst hbefore
          exact .inl hp
        · exact .inr ⟨⟨draw, rfl⟩, unused_of_redeems (h.knows i _ _ _ hp) hbefore hphase⟩

/-- **Every step** keeps what the calls know, and their rows apart. -/
theorem PairingCodesWorld.Sound.step (h : w.Sound verify) (step : PairingCodesStep verify w ev w') :
    w'.Sound verify := by
  have hlater := step.later
  constructor
  · intro i code now phase hphase
    rcases step.procs_cases hphase with hp | ⟨-, hinit, -⟩ | ⟨draw, p, -, hp, hready, hexec⟩
    · exact (h.knows i code now phase hp).later hlater
    · obtain rfl : phase = .select := hinit
      trivial
    · cases p with
      | create account now' expiresAt phase' => cases congrArg Prod.snd hexec
      | redeem code' now' phase' =>
          obtain ⟨rfl, rfl, rfl⟩ := PairingCall.redeem.inj (congrArg Prod.snd hexec)
          have hshared : (PairingCall.execRedeem verify w.shared code' draw phase').1 =
              w'.shared := congrArg Prod.fst hexec
          rw [← hshared]
          exact (h.knows i _ _ _ hp).exec hready
  · -- the second of two redemptions would have found the row used
    have hfirst : ∀ i j code code' now now' row row', w.Redeemed i code now row →
        w'.Redeemed j code' now' row' → row.id = row'.id → i = j := by
      intro i j code code' now now' row row' hi hj hid
      rcases step.redeemed h hj with hj | ⟨-, r, hr, hrid, hunused⟩
      · exact h.distinct i j code code' now now' row row' hi hj hid
      · have hused := (h.knows i _ _ _ hi).2.2
        rw [PairingTable.eq_of_id hr hused (hrid.trans hid.symm)] at hunused
        cases hunused
    intro i j code code' now now' row row' hi hj hid
    rcases step.redeemed h hi with hbefore | ⟨⟨draw, rfl⟩, -⟩
    · exact hfirst i j code code' now now' row row' hbefore hj hid
    · rcases step.redeemed h hj with hbefore | ⟨⟨draw', hev⟩, -⟩
      · exact (hfirst j i code' code now' now row' row hbefore hi hid.symm).symm
      · cases hev
        rfl

/-- In every state of a run, each call knows what its place in the code says. -/
theorem PairingCodesWorld.Sound.run (run : Run (PairingCodesStep verify) w₀ trace w)
    (hnew : ∀ i, w₀.procs i = none) : w.Sound verify := by
  refine run.invariant (I := PairingCodesWorld.Sound verify) (fun _ _ _ h step => h.step step)
    ⟨fun i code now phase hp => ?_, fun i j code code' now now' row row' hi => ?_⟩
  · rw [hnew i] at hp
    cases hp
  · rw [PairingCodesWorld.Redeemed, hnew i] at hi
    cases hi

/-- Where the rows of a call come from. -/
theorem mem_rows_execRedeem {t : PairingTable} {draw : PairingDraw} {code : String}
    {phase : RedeemPhase} {row : PairingCodeRow}
    (hrow : row ∈ (PairingCall.execRedeem verify t code draw phase).2.rows) :
    phase = .select ∧ row ∈ draw.rows ∨ row ∈ phase.rows := by
  match phase, hrow with
  | .select, hrow =>
      rw [PairingCall.execRedeem] at hrow
      split_ifs at hrow
      · exact .inl ⟨rfl, hrow⟩
      · cases hrow
  | .scan [], hrow => cases hrow
  | .scan (r :: rest), hrow =>
      rw [PairingCall.execRedeem] at hrow
      split_ifs at hrow
      · exact .inr hrow
      · exact .inr (List.mem_cons_of_mem r hrow)
  | .burn r rest, hrow =>
      rw [PairingCall.execRedeem] at hrow
      split_ifs at hrow
      · obtain rfl := List.mem_singleton.mp hrow
        exact .inr List.mem_cons_self
      · exact .inr (List.mem_cons_of_mem r hrow)
      · cases hrow
  | .redeemed r, hrow => exact .inr hrow
  | .refused, hrow | .failed, hrow => cases hrow

/-- The call was started with these arguments, and the row was active when it read it. -/
def PairingCodesWorld.ReadBy (verify : String → String → Bool) (w₀ : PairingCodesWorld)
    (trace : List (Event ℕ PairingCall PairingDraw)) (i : ℕ) (code : String) (now : UtcTime)
    (row : PairingCodeRow) : Prop :=
  ∃ pre post before mid, trace = pre ++ .start i (.redeem code now .select) :: post ∧
    Run (PairingCodesStep verify) w₀ pre before ∧
    before.shared.Later mid ∧ row ∈ mid.rows ∧ row.active now.toRfc3339 = true

/-- **The rows of a call** were active when it read them. -/
theorem readBy_of_run (run : Run (PairingCodesStep verify) w₀ trace w)
    (hnew : ∀ i, w₀.procs i = none) {i : ℕ} {code : String} {now : UtcTime}
    {phase : RedeemPhase} (hphase : w.procs i = some (.redeem code now phase))
    {row : PairingCodeRow} (hrow : row ∈ phase.rows) :
    PairingCodesWorld.ReadBy verify w₀ trace i code now row := by
  induction run generalizing phase with
  | nil =>
      rw [hnew i] at hphase
      cases hphase
  | snoc run step ih =>
      rename_i ls t u ev
      have hextend : PairingCodesWorld.ReadBy verify w₀ ls i code now row →
          PairingCodesWorld.ReadBy verify w₀ (ls ++ [ev]) i code now row := by
        rintro ⟨pre, post, before, mid, rfl, hpre, hread⟩
        exact ⟨pre, post ++ [ev], before, mid, by simp, hpre, hread⟩
      rcases step.procs_cases hphase with hp | ⟨-, hinit, -⟩ | ⟨draw, p, -, hp, hready, hexec⟩
      · exact hextend (ih hp hrow)
      · obtain rfl : phase = .select := hinit
        cases hrow
      · cases p with
        | create account now' expiresAt phase' => cases congrArg Prod.snd hexec
        | redeem code' now' phase' =>
            obtain ⟨rfl, rfl, rfl⟩ := PairingCall.redeem.inj (congrArg Prod.snd hexec)
            rcases mem_rows_execRedeem hrow with ⟨rfl, hread⟩ | hearlier
            · -- the statement is the `SELECT`
              obtain ⟨pre, post, before, rfl, hpre, hpost⟩ := Program.exists_start
                (fun _ _ p _ => p.not_init_exec) run hnew hp rfl
              obtain ⟨hmem, hactive⟩ := List.mem_filter.mp ((List.Perm.mem_iff hready).mp hread)
              exact hextend ⟨pre, post, before, t.shared, rfl, hpre, later_of_run hpost, hmem,
                hactive⟩
            · exact hextend (ih hp hearlier)

/-- **Pairing codes are single-use.**  For every interleaving of the statements of any
number of calls, and any verification of codes against hashes: different redemptions have
different rows; the row of a redemption was not used when the call took its now, had not
expired then, matches the code, and is used afterwards; and a used row stays as it is. -/
theorem codes_single_use (run : Run (PairingCodesStep verify) w₀ trace w)
    (hnew : ∀ i, w₀.procs i = none) :
    (∀ i j code code' now now' row row', w.Redeemed i code now row →
      w.Redeemed j code' now' row' → row.id = row'.id → i = j) ∧
    (∀ i code now row, w.Redeemed i code now row →
      verify code row.codeHash = true ∧ row.active now.toRfc3339 = true ∧
      (∀ expiry : UtcTime, row.expiresAt = expiry.toRfc3339 → now.instant < expiry.instant) ∧
      { row with used := true } ∈ w.shared.rows ∧
      ∃ pre post before, trace = pre ++ .start i (.redeem code now .select) :: post ∧
        Run (PairingCodesStep verify) w₀ pre before ∧
        ∀ r ∈ before.shared.rows, r.id = row.id → r = row) ∧
    ∀ pre post mid, trace = pre ++ post → Run (PairingCodesStep verify) w₀ pre mid →
      Run (PairingCodesStep verify) mid post w →
      ∀ r ∈ mid.shared.rows, r.used = true → r ∈ w.shared.rows := by
  have sound := PairingCodesWorld.Sound.run run hnew
  refine ⟨sound.distinct, fun i code now row hrow => ?_, fun pre post mid _ _ hpost r hr hused =>
    (later_of_run hpost).used hr hused⟩
  obtain ⟨hverify, hread, hused⟩ := sound.knows i code now _ hrow
  refine ⟨hverify, by simp [PairingCodeRow.active, hread.unused, hread.unexpired],
    fun expiry hexpiry => ?_, hused, ?_⟩
  · have hlt := hread.unexpired
    rw [hexpiry] at hlt
    exact UtcTime.text_lt_iff.mp hlt
  · obtain ⟨pre, post, before, mid, htrace, hpre, hlater, hmem, -⟩ :=
      readBy_of_run run hnew hrow List.mem_cons_self
    refine ⟨pre, post, before, htrace, hpre, fun r hr hid => ?_⟩
    rcases hlater r hr with hr' | ⟨-, hr'⟩
    · exact PairingTable.eq_of_id hr' hmem hid
    · have heq := PairingTable.eq_of_id hr' hmem hid
      rw [← heq] at hread
      cases hread.unused

end Runs

section Example

/-- The first of January 2026, so many seconds after midnight. -/
def newYear (secs : ℕ) (h : secs < 86400) : UtcTime where
  date := ⟨2026, 1, 1, by decide, by decide, by decide, by decide⟩
  secs := secs
  nanos := 250000000
  year_lt := by decide
  secs_lt := h
  nanos_lt := by decide

/-- A code that two devices try. -/
def sharedCode : PairingCodeRow where
  id := 41
  accountId := 1
  codeHash := "argon2:ABCD2345"
  expiresAt := (newYear 900 (by decide)).toRfc3339
  used := false
  createdAt := (newYear 600 (by decide)).toRfc3339

/-- One active code, and no call. -/
def oneCode : PairingCodesWorld where
  shared := ⟨[sharedCode], by decide⟩
  procs := fun _ => none

/-- Two devices are paired with the same code: both calls read and verify the row before one
of them burns it. -/
def racingCalls : List (Event ℕ PairingCall PairingDraw) :=
  let call := PairingCall.redeem "ABCD2345" (newYear 700 (by decide)) .select
  let draw : PairingDraw := ⟨true, [sharedCode], 0, ""⟩
  [.start 1 call, .start 2 call, .exec 1 draw, .exec 2 draw, .exec 1 draw, .exec 2 draw,
    .exec 1 draw, .exec 2 draw, .exec 2 draw]

/-- A hash that shows what it is the hash of. -/
def checkArgon (code hash : String) : Bool := hash = "argon2:" ++ code

/-- Both have tried it. -/
def afterRace : PairingCodesWorld :=
  racingCalls.foldl (pairingProgram checkArgon).next oneCode

/-- In the example one of two calls with the same code redeems it, and the other is refused. -/
theorem racing_calls_share_no_code :
    afterRace.procs 2 = some (.redeem "ABCD2345" (newYear 700 (by decide)) .refused) ∧
    { sharedCode with used := true } ∈ afterRace.shared.rows := by
  have run : Run (PairingCodesStep checkArgon) oneCode racingCalls afterRace :=
    Run.of_enabled (by decide +kernel)
  have redeemed : afterRace.Redeemed 1 "ABCD2345" (newYear 700 (by decide)) sharedCode := by
    decide +kernel
  exact ⟨by decide +kernel, ((codes_single_use run fun _ => rfl).2.1 _ _ _ _ redeemed).2.2.2.1⟩

end Example

end Savr
