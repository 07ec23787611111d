import Savr.Server.PairingCodes
import Savr.Server.Revocation
import Savr.Server.Tokens

/-!
# Requests for credentials

The handlers of `savr-server/src/api.rs` that hand out credentials, and the calls that need
them: the login of the owner, pairing codes, pairing, refreshing, and every call of a device.
Each is cut at its statements, and any number of requests take their steps in any order.

A request may carry any token it has been given, or any text the server has not signed.  The
lockout of `PairGuard` only refuses more; it is left to the environment.

## Main results

* `AuthHandler.exec_moves` — what a step of a handler can be.
* `AuthWorld.pairing_run` — the pairing codes of the server are those of
  `Savr.Server.PairingCodes`, whatever else goes on.
-/

namespace Savr

open LabelledRun Interleaving

/-- A row of `accounts`. -/
structure OwnerRow where
  id : AccountId
  ownerHash : String
  deriving DecidableEq, Repr

/-- What a device asks to be paired with. -/
structure PairRequest where
  code : String
  deviceName : String
  os : Os
  deriving DecidableEq, Repr

/-- Where a call of `login` is. -/
inductive LoginPhase
  | select
  /-- The session token, and when it was minted. -/
  | granted (owner : OwnerRow) (token : String) (mintedAt : UtcTime)
  | refused
  deriving DecidableEq

/-- Where a call of `create_pair_code` is. -/
inductive CodePhase
  | authorize
  | creating (account : AccountId) (authorizedAt now expiresAt : UtcTime) (phase : CreatePhase)
  | created (account : AccountId) (authorizedAt now expiresAt : UtcTime) (row : PairingCodeRow)
  | refused
  deriving DecidableEq

/-- A device that was paired, with the credentials it was given. -/
structure Pairing where
  row : PairingCodeRow
  device : DeviceId
  refreshSecret : String
  accessToken : String
  mintedAt : UtcTime
  deriving DecidableEq

/-- Where a call of `pair` is. -/
inductive PairingPhase
  | guard
  | redeeming (now : UtcTime) (phase : RedeemPhase)
  | paired (now : UtcTime) (pairing : Pairing)
  | failed (now : UtcTime) (row : PairingCodeRow)
  | lockedOut
  deriving DecidableEq

/-- Where a call of `refresh` is. -/
inductive RenewPhase
  | select
  | granted (account : AccountId) (token : String) (mintedAt : UtcTime)
  | refused
  deriving DecidableEq

/-- Where another call is. The token is checked first, then the device, and then the call is
performed. -/
inductive CallPhase
  | verify
  /-- The token verifies; the device is not looked up yet. -/
  | claimed (auth : Authed) (now : UtcTime)
  | admitted (auth : Authed) (now : UtcTime)
  | served (auth : Authed) (now : UtcTime)
  | refused
  deriving DecidableEq

/-- A request, and where its handler is. -/
inductive AuthHandler
  | login (password : String) (phase : LoginPhase)
  | pairCode (authorization : Option String) (phase : CodePhase)
  | pair (req : PairRequest) (phase : PairingPhase)
  | refresh (device : DeviceId) (refreshSecret : String) (phase : RenewPhase)
  | call (authorization : Option String) (c : Db.AccountCall) (phase : CallPhase)

/-- What the environment decides about a step: the clock, the outcome of the statement, and
all that is drawn at random. -/
structure AuthDraw where
  /-- The statement succeeds; the guard lets through. -/
  ok : Bool
  /-- What the step takes as now, and what a later statement of the handler does. -/
  now : UtcTime
  later : UtcTime
  expiresAt : UtcTime
  /-- The row that `LIMIT 1` returns. -/
  owner : Option OwnerRow
  pairing : PairingDraw
  /-- What is drawn for a new device. -/
  device : DeviceId
  refreshSecret : String
  tokenHash : String

/-- What the handlers share. -/
structure AuthState where
  owners : List OwnerRow
  jwtSecret : Bytes
  codes : PairingTable
  db : Db
  /-- The tokens that were handed out. -/
  issued : List String

section Program

variable (crates : TokenCrates) (verify : String → String → Bool)

/-- A text that the server has not signed, or a token it has handed out. -/
def AuthState.Presentable (s : AuthState) (authorization : Option String) : Prop :=
  ∀ token, bearer authorization = .ok token →
    crates.decode s.jwtSecret token = none ∨ token ∈ s.issued

namespace AuthHandler

/-- A request starts at its first step. -/
def Init : AuthHandler → Prop
  | login _ phase => phase = .select
  | pairCode _ phase => phase = .authorize
  | pair _ phase => phase = .guard
  | refresh _ _ phase => phase = .select
  | call _ _ phase => phase = .verify

/-- Where a handler can go on, and with which draws: what is read is in the table, and a
presented token was handed out, or is not the server's. -/
def Ready (s : AuthState) : AuthHandler → AuthDraw → Prop
  | login _ .select, draw => ∀ owner, draw.owner = some owner → owner ∈ s.owners
  | pairCode authorization .authorize, draw => s.Presentable crates authorization ∧
      draw.expiresAt.instant = draw.later.instant + pairingTtlSecs * 10 ^ 9
  | pairCode _ (.creating account _ now expiresAt phase), draw =>
      (PairingCall.create account now expiresAt phase).Ready s.codes draw.pairing
  | pair _ .guard, _ => True
  -- the code is redeemed: the device is created next
  | pair _ (.redeeming _ (.redeemed _)), draw =>
      draw.device < 2 ^ 128 ∧ verify draw.refreshSecret draw.tokenHash = true
  | pair req (.redeeming now phase), draw =>
      (PairingCall.redeem req.code now phase).Ready s.codes draw.pairing
  | refresh _ _ .select, _ => True
  | call authorization _ .verify, _ => s.Presentable crates authorization
  | call _ _ (.claimed _ _), _ | call _ _ (.admitted _ _), _ => True
  | _, _ => False

/-- `login`: read the owner, verify the password, mint a session. Of several owners `LIMIT 1`
may return any. -/
def execLogin (s : AuthState) (password : String) (draw : AuthDraw) :
    LoginPhase → AuthState × LoginPhase
  | .select =>
      match if draw.ok then draw.owner else none with
      | none => (s, .refused)
      | some owner =>
          if verify password owner.ownerHash then
            let token := mintOwnerSession crates s.jwtSecret owner.id draw.now
            ({ s with issued := token :: s.issued }, .granted owner token draw.now)
          else (s, .refused)
  | phase => (s, phase)

/-- `create_pair_code`: the extractor, and the statements of `create_pairing_code`. It needs
the session of an owner, not the token of a device. -/
def execCode (s : AuthState) (authorization : Option String) (draw : AuthDraw) :
    CodePhase → AuthState × CodePhase
  | .authorize =>
      match ownerSession crates s.jwtSecret authorization draw.now with
      | .error _ => (s, .refused)
      | .ok account => (s, .creating account draw.now draw.later draw.expiresAt .count)
  | .creating account authorizedAt now expiresAt phase =>
      let (codes, phase') := PairingCall.execCreate s.codes account now expiresAt draw.pairing phase
      ({ s with codes },
        if phase' = .created then
          .created account authorizedAt now expiresAt
            { id := draw.pairing.id, accountId := account, codeHash := draw.pairing.codeHash
              expiresAt := expiresAt.toRfc3339, used := false, createdAt := now.toRfc3339 }
        else .creating account authorizedAt now expiresAt phase')
  | phase => (s, phase)

/-- `pair`: the guard, `redeem_pairing_code`, and the new device with its tokens. The account
of the device is that of the code. -/
def execPair (s : AuthState) (req : PairRequest) (draw : AuthDraw) :
    PairingPhase → AuthState × PairingPhase
  | .guard => (s, if draw.ok then .redeeming draw.now .select else .lockedOut)
  | .redeeming now (.redeemed row) =>
      match if draw.ok then
          s.db.createDevice row.accountId draw.device req.deviceName req.os draw.tokenHash
            draw.now.instant
        else .error (.internal "") with
      | .error _ => (s, .failed now row)
      | .ok db =>
          let token := mintAccessToken crates s.jwtSecret row.accountId draw.device draw.later
          ({ s with db, issued := token :: s.issued },
            .paired now ⟨row, draw.device, draw.refreshSecret, token, draw.later⟩)
  | .redeeming now phase =>
      let (codes, phase') := PairingCall.execRedeem verify s.codes req.code draw.pairing phase
      ({ s with codes }, .redeeming now phase')
  | phase => (s, phase)

/-- `refresh`: one answer for every failure. The account of the new token is the device's own. -/
def execRefresh (s : AuthState) (device : DeviceId) (refreshSecret : String) (draw : AuthDraw) :
    RenewPhase → AuthState × RenewPhase
  | .select =>
      match if draw.ok then s.db.deviceCredentials device else none with
      | none => (s, .refused)
      | some (account, tokenHash, revoked) =>
          if revoked || !verify refreshSecret tokenHash then (s, .refused)
          else
            let token := mintAccessToken crates s.jwtSecret account device draw.now
            ({ s with issued := token :: s.issued }, .granted account token draw.now)
  | phase => (s, phase)

/-- The extractor `Authed`, and a call on behalf of the account. The device is looked up
after the token has been verified, and once. -/
def execCall (s : AuthState) (authorization : Option String) (c : Db.AccountCall)
    (draw : AuthDraw) : CallPhase → AuthState × CallPhase
  | .verify =>
      match claimedDevice crates s.jwtSecret authorization draw.now with
      | .error _ => (s, .refused)
      | .ok auth => (s, .claimed auth draw.now)
  | .claimed auth now =>
      (s, if draw.ok && s.db.deviceActive auth.accountId auth.deviceId then .admitted auth now
        else .refused)
  | .admitted auth now => ({ s with db := s.db.perform auth.accountId c }, .served auth now)
  | phase => (s, phase)

/-- One step of a request: that of its handler, in the phase it is in. -/
def exec (s : AuthState) (draw : AuthDraw) : AuthHandler → AuthState × AuthHandler
  | login password phase => (execLogin crates verify s password draw phase).map id (login password)
  | pairCode authorization phase =>
      (execCode crates s authorization draw phase).map id (pairCode authorization)
  | pair req phase => (execPair crates verify s req draw phase).map id (pair req)
  | refresh device refreshSecret phase =>
      (execRefresh crates verify s device refreshSecret draw phase).map id
        (refresh device refreshSecret)
  | call authorization c phase =>
      (execCall crates s authorization c draw phase).map id (call authorization c)

instance : DecidablePred Init
  | login _ phase => inferInstanceAs (Decidable (phase = .select))
  | pairCode _ phase => inferInstanceAs (Decidable (phase = .authorize))
  | pair _ phase => inferInstanceAs (Decidable (phase = .guard))
  | refresh _ _ phase => inferInstanceAs (Decidable (phase = .select))
  | call _ _ phase => inferInstanceAs (Decidable (phase = .verify))

end AuthHandler

instance (s : AuthState) (authorization : Option String) :
    Decidable (s.Presentable crates authorization) :=
  match h : bearer authorization with
  | .error _ => isTrue fun token htoken => by rw [h] at htoken; cases htoken
  | .ok token => decidable_of_iff
      (crates.decode s.jwtSecret token = none ∨ token ∈ s.issued)
      ⟨fun hpres token' htoken => Except.ok.inj (h.symm.trans htoken) ▸ hpres,
        fun hpres => hpres token h⟩

instance AuthHandler.decidableReady (s : AuthState) :
    ∀ h draw, Decidable (AuthHandler.Ready crates verify s h draw)
  | .login _ .select, draw =>
      inferInstanceAs (Decidable (∀ owner, draw.owner = some owner → owner ∈ s.owners))
  | .pairCode authorization .authorize, draw =>
      inferInstanceAs (Decidable (s.Presentable crates authorization ∧
        draw.expiresAt.instant = draw.later.instant + pairingTtlSecs * 10 ^ 9))
  | .pairCode _ (.creating account _ now expiresAt phase), draw =>
      inferInstanceAs (Decidable
        ((PairingCall.create account now expiresAt phase).Ready s.codes draw.pairing))
  | .pair _ .guard, _ => isTrue trivial
  | .pair _ (.redeeming _ (.redeemed _)), draw =>
      inferInstanceAs (Decidable
        (draw.device < 2 ^ 128 ∧ verify draw.refreshSecret draw.tokenHash = true))
  | .pair req (.redeeming now .select), draw =>
      inferInstanceAs (Decidable
        ((PairingCall.redeem req.code now .select).Ready s.codes draw.pairing))
  | .pair _ (.redeeming _ (.scan _)), _ | .pair _ (.redeeming _ (.burn _ _)), _ => isTrue trivial
  | .refresh _ _ .select, _ => isTrue trivial
  | .call authorization _ .verify, _ =>
      inferInstanceAs (Decidable (s.Presentable crates authorization))
  | .call _ _ (.claimed _ _), _ | .call _ _ (.admitted _ _), _ => isTrue trivial
  | .login _ (.granted _ _ _), _ | .login _ .refused, _ | .pairCode _ (.created _ _ _ _ _), _
  | .pairCode _ .refused, _ | .pair _ (.redeeming _ .refused), _
  | .pair _ (.redeeming _ .failed), _ | .pair _ (.paired _ _), _ | .pair _ (.failed _ _), _
  | .pair _ .lockedOut, _ | .refresh _ _ (.granted _ _ _), _ | .refresh _ _ .refused, _
  | .call _ _ (.served _ _), _ | .call _ _ .refused, _ => isFalse id

/-- Any number of requests; `verify` is the argon2 verification. -/
def authProgram : Program AuthState ℕ AuthHandler AuthDraw where
  Init := AuthHandler.Init
  Ready s _ h draw := h.Ready crates verify s draw
  exec s _ h draw := h.exec crates verify s draw

instance : DecidablePred (authProgram crates verify).Init :=
  inferInstanceAs (DecidablePred AuthHandler.Init)

instance : ∀ s i h draw, Decidable ((authProgram crates verify).Ready s i h draw) :=
  fun s _ h draw => inferInstanceAs (Decidable (h.Ready crates verify s draw))

/-- What the requests share, and the requests. -/
abbrev AuthWorld := World AuthState ℕ AuthHandler

/-- One step of some request. -/
def AuthStep : AuthWorld → Event ℕ AuthHandler AuthDraw → AuthWorld → Prop :=
  (authProgram crates verify).Step

/-- A server that has been set up: it has owners, and nobody has a credential yet. -/
structure AuthWorld.New (w : AuthWorld) : Prop where
  owners : ∀ owner ∈ w.shared.owners, owner.id < 2 ^ 128
  codes : w.shared.codes.rows = []
  devices : w.shared.db.devices = []
  issued : w.shared.issued = []
  procs : ∀ i, w.procs i = none

end Program

/-! ## What a step can be -/

/-- The call of the database a handler is in, so that what is known of those calls can be used. -/
def AuthHandler.pairingCall : AuthHandler → Option PairingCall
  | pairCode _ (.creating account _ now expiresAt phase) =>
      some (.create account now expiresAt phase)
  | pairCode _ (.created account _ now expiresAt _) => some (.create account now expiresAt .created)
  | pair req (.redeeming now phase) => some (.redeem req.code now phase)
  | pair req (.paired now pairing) => some (.redeem req.code now (.redeemed pairing.row))
  | pair req (.failed now row) => some (.redeem req.code now (.redeemed row))
  | _ => none

/-- The handler has answered that the request is not let through. -/
def AuthHandler.Refused : AuthHandler → Prop
  | login _ phase => phase = .refused
  | pairCode _ phase => phase = .refused
  | pair _ phase => phase = .lockedOut
  | refresh _ _ phase => phase = .refused
  | call _ _ phase => phase = .refused

/-- A step of a handler, with what it found out. Each constructor is one way a step can end
well, and `refuse` is all the others. -/
inductive AuthHandler.Moves (crates : TokenCrates) (verify : String → String → Bool)
    (s : AuthState) (draw : AuthDraw) : AuthHandler → AuthState → AuthHandler → Prop
  | refuse {h h' : AuthHandler} (before : h.pairingCall = none) (refused : h'.Refused) :
      Moves crates verify s draw h s h'
  | logIn {password : String} {owner : OwnerRow} (mem : owner ∈ s.owners)
      (verified : verify password owner.ownerHash = true) :
      Moves crates verify s draw (.login password .select)
        { s with issued := mintOwnerSession crates s.jwtSecret owner.id draw.now :: s.issued }
        (.login password (.granted owner (mintOwnerSession crates s.jwtSecret owner.id draw.now)
          draw.now))
  | authorize {authorization : Option String} {account : AccountId}
      (presentable : s.Presentable crates authorization)
      (session : ownerSession crates s.jwtSecret authorization draw.now = .ok account)
      (expires : draw.expiresAt.instant = draw.later.instant + pairingTtlSecs * 10 ^ 9) :
      Moves crates verify s draw (.pairCode authorization .authorize) s
        (.pairCode authorization (.creating account draw.now draw.later draw.expiresAt .count))
  | create {authorization : Option String} {account : AccountId}
      {authorizedAt now expiresAt : UtcTime} {phase phase' : CreatePhase} {codes : PairingTable}
      (ready : (PairingCall.create account now expiresAt phase).Ready s.codes draw.pairing)
      (exec : PairingCall.execCreate s.codes account now expiresAt draw.pairing phase
        = (codes, phase')) (going : phase' ≠ .created) :
      Moves crates verify s draw
        (.pairCode authorization (.creating account authorizedAt now expiresAt phase))
        { s with codes }
        (.pairCode authorization (.creating account authorizedAt now expiresAt phase'))
  | created {authorization : Option String} {account : AccountId}
      {authorizedAt now expiresAt : UtcTime} {phase : CreatePhase} {codes : PairingTable}
      (ready : (PairingCall.create account now expiresAt phase).Ready s.codes draw.pairing)
      (exec : PairingCall.execCreate s.codes account now expiresAt draw.pairing phase
        = (codes, .created)) :
      Moves crates verify s draw
        (.pairCode authorization (.creating account authorizedAt now expiresAt phase))
        { s with codes }
        (.pairCode authorization (.created account authorizedAt now expiresAt
          { id := draw.pairing.id, accountId := account, codeHash := draw.pairing.codeHash
            expiresAt := expiresAt.toRfc3339, used := false, createdAt := now.toRfc3339 }))
  | letThrough {req : PairRequest} :
      Moves crates verify s draw (.pair req .guard) s
        (.pair req (.redeeming draw.now .select))
  | redeem {req : PairRequest} {now : UtcTime} {phase phase' : RedeemPhase}
      {codes : PairingTable}
      (ready : (PairingCall.redeem req.code now phase).Ready s.codes draw.pairing)
      (exec : PairingCall.execRedeem verify s.codes req.code draw.pairing phase
        = (codes, phase')) :
      Moves crates verify s draw (.pair req (.redeeming now phase)) { s with codes }
        (.pair req (.redeeming now phase'))
  | createFailed {req : PairRequest} {now : UtcTime} {row : PairingCodeRow} :
      Moves crates verify s draw (.pair req (.redeeming now (.redeemed row))) s
        (.pair req (.failed now row))
  | pair {req : PairRequest} {now : UtcTime} {row : PairingCodeRow} {db : Db}
      (fits : draw.device < 2 ^ 128)
      (hashed : verify draw.refreshSecret draw.tokenHash = true)
      (createDevice : s.db.createDevice row.accountId draw.device req.deviceName req.os
        draw.tokenHash draw.now.instant = .ok db) :
      Moves crates verify s draw (.pair req (.redeeming now (.redeemed row)))
        { s with
          db
          issued := mintAccessToken crates s.jwtSecret row.accountId draw.device draw.later ::
            s.issued }
        (.pair req (.paired now ⟨row, draw.device, draw.refreshSecret,
          mintAccessToken crates s.jwtSecret row.accountId draw.device draw.later, draw.later⟩))
  | refresh {device : DeviceId} {refreshSecret : String} {account : AccountId}
      {tokenHash : String}
      (credentials : s.db.deviceCredentials device = some (account, tokenHash, false))
      (verified : verify refreshSecret tokenHash = true) :
      Moves crates verify s draw (.refresh device refreshSecret .select)
        { s with issued := mintAccessToken crates s.jwtSecret account device draw.now :: s.issued }
        (.refresh device refreshSecret (.granted account
          (mintAccessToken crates s.jwtSecret account device draw.now) draw.now))
  | claim {authorization : Option String} {c : Db.AccountCall} {auth : Authed}
      (presentable : s.Presentable crates authorization)
      (claimed : claimedDevice crates s.jwtSecret authorization draw.now = .ok auth) :
      Moves crates verify s draw (.call authorization c .verify) s
        (.call authorization c (.claimed auth draw.now))
  | letIn {authorization : Option String} {c : Db.AccountCall} {auth : Authed} {now : UtcTime}
      (active : s.db.deviceActive auth.accountId auth.deviceId = true) :
      Moves crates verify s draw (.call authorization c (.claimed auth now)) s
        (.call authorization c (.admitted auth now))
  | serve {authorization : Option String} {c : Db.AccountCall} {auth : Authed} {now : UtcTime} :
      Moves crates verify s draw (.call authorization c (.admitted auth now))
        { s with db := s.db.perform auth.accountId c }
        (.call authorization c (.served auth now))

section Moves

variable {crates : TokenCrates} {verify : String → String → Bool} {w w' w₀ : AuthWorld}
  {s : AuthState} {h : AuthHandler} {draw : AuthDraw}
  {ev : Event ℕ AuthHandler AuthDraw} {trace : List (Event ℕ AuthHandler AuthDraw)}

/-- **What a step of a handler can be.** -/
theorem AuthHandler.exec_moves (ready : h.Ready crates verify s draw) :
    h.Moves crates verify s draw (h.exec crates verify s draw).1
      (h.exec crates verify s draw).2 := by
  match h, ready with
  | .login password .select, ready =>
      rw [exec, execLogin]
      split
      · exact .refuse rfl rfl
      · rename_i owner howner
        split_ifs with hverify
        · refine .logIn (ready owner ?_) hverify
          split_ifs at howner
          exact howner
        · exact .refuse rfl rfl
  | .pairCode authorization .authorize, ready =>
      rw [exec, execCode]
      split
      · exact .refuse rfl rfl
      · exact .authorize ready.1 (by assumption) ready.2
  | .pairCode authorization (.creating account authorizedAt now expiresAt phase), ready =>
      rw [exec, execCode]
      by_cases hphase : (PairingCall.execCreate s.codes account now expiresAt draw.pairing phase).2
          = .created
      · simp only [hphase]
        exact .created ready (Prod.ext rfl hphase)
      · simp only [if_neg hphase]
        exact .create ready rfl hphase
  | .pair req .guard, ready =>
      rw [exec, execPair]
      split_ifs
      · exact .letThrough
      · exact .refuse rfl rfl
  | .pair req (.redeeming now (.redeemed row)), ready =>
      rw [exec, execPair]
      split
      · exact .createFailed
      · rename_i db hdb
        refine .pair ready.1 ready.2 ?_
        split_ifs at hdb
        exact hdb
  | .pair req (.redeeming now .select), ready
  | .pair req (.redeeming now (.scan _)), ready
  | .pair req (.redeeming now (.burn _ _)), ready => exact .redeem ready rfl
  | .refresh device refreshSecret .select, ready =>
      rw [exec, execRefresh]
      split
      · exact .refuse rfl rfl
      · rename_i account tokenHash revoked hcredentials
        split_ifs with hrefused
        · exact .refuse rfl rfl
        · rw [Bool.or_eq_true, not_or, Bool.not_eq_true, Bool.not_eq_true', Bool.not_eq_false]
            at hrefused
          obtain ⟨rfl, hverify⟩ := hrefused
          refine .refresh ?_ hverify
          split_ifs at hcredentials
          exact hcredentials
  | .call authorization c .verify, ready =>
      rw [exec, execCall]
      split
      · exact .refuse rfl rfl
      · exact .claim ready (by assumption)
  | .call authorization c (.claimed auth now), ready =>
      rw [exec, execCall]
      split_ifs with hactive
      · exact .letIn (Bool.and_eq_true_iff.mp hactive).2
      · exact .refuse rfl rfl
  | .call authorization c (.admitted auth now), ready => exact .serve

/-- A step of the server. -/
theorem AuthStep.cases (step : AuthStep crates verify w ev w') :
    (∃ i p, p.Init ∧ w.procs i = none ∧ w'.shared = w.shared ∧
      w'.procs = Function.update w.procs i (some p)) ∨
    ∃ i draw p q, w.procs i = some p ∧ p.Moves crates verify w.shared draw w'.shared q ∧
      w'.procs = Function.update w.procs i (some q) := by
  rcases Program.Step.cases step with
    ⟨i, p, -, hnone, hinit, rfl⟩ | ⟨i, draw, p, -, hp, hready, rfl⟩
  · exact .inl ⟨i, p, hinit, hnone, rfl, rfl⟩
  · exact .inr ⟨i, draw, p, _, hp, AuthHandler.exec_moves hready, rfl⟩

/-- Where a handler is after a step. -/
theorem AuthStep.procs_cases (step : AuthStep crates verify w ev w') {i : ℕ} {q : AuthHandler}
    (hq : w'.procs i = some q) :
    w.procs i = some q ∨ q.Init ∨ ∃ draw p, w.procs i = some p ∧
      p.Moves crates verify w.shared draw w'.shared q := by
  rcases Program.Step.procs_cases step hq with hp | ⟨-, hinit, -⟩ | ⟨draw, p, -, hp, hready, hexec⟩
  · exact .inl hp
  · exact .inr (.inl hinit)
  · have hmoves := AuthHandler.exec_moves hready
    have hshared : (p.exec crates verify w.shared draw).1 = w'.shared := congrArg Prod.fst hexec
    have hproc : (p.exec crates verify w.shared draw).2 = q := congrArg Prod.snd hexec
    rw [hshared, hproc] at hmoves
    exact .inr (.inr ⟨draw, p, hp, hmoves⟩)

end Moves

/-! ## The pairing codes among the rest -/

/-- The table of pairing codes, and the calls that use it. -/
def AuthWorld.pairing (w : AuthWorld) : PairingCodesWorld where
  shared := w.shared.codes
  procs i := (w.procs i).bind AuthHandler.pairingCall

section Pairing

variable {crates : TokenCrates} {verify : String → String → Bool} {w w' w₀ : AuthWorld}
  {s s' : AuthState} {h h' : AuthHandler} {draw : AuthDraw}
  {ev : Event ℕ AuthHandler AuthDraw} {trace : List (Event ℕ AuthHandler AuthDraw)}

theorem AuthHandler.pairingCall_of_refused (hrefused : h.Refused) : h.pairingCall = none := by
  cases h <;> cases hrefused <;> rfl

theorem AuthHandler.pairingCall_of_init (hinit : h.Init) : h.pairingCall = none := by
  cases h <;> cases hinit <;> rfl

/-- What a step is to the pairing codes: nothing, the start of a call, or one of its
statements. -/
theorem AuthHandler.Moves.pairingCall (moves : h.Moves crates verify s draw s' h') :
    (s'.codes = s.codes ∧ h'.pairingCall = h.pairingCall) ∨
    (s'.codes = s.codes ∧ h.pairingCall = none ∧
      ∃ call, h'.pairingCall = some call ∧ call.Init) ∨
    ∃ call, h.pairingCall = some call ∧ call.Ready s.codes draw.pairing ∧
      call.exec verify s.codes draw.pairing = (s'.codes, h'.pairingCall.getD call) ∧
      h'.pairingCall.isSome := by
  cases moves with
  | refuse before refused => exact .inl ⟨rfl, (pairingCall_of_refused refused).trans before.symm⟩
  | authorize presentable session expires => exact .inr (.inl ⟨rfl, rfl, _, rfl, rfl, expires⟩)
  | letThrough => exact .inr (.inl ⟨rfl, rfl, _, rfl, rfl⟩)
  | create ready exec going =>
      refine .inr (.inr ⟨_, rfl, ready, ?_, rfl⟩)
      rw [PairingCall.exec, exec]
      rfl
  | created ready exec =>
      refine .inr (.inr ⟨_, rfl, ready, ?_, rfl⟩)
      rw [PairingCall.exec, exec]
      rfl
  | redeem ready exec =>
      refine .inr (.inr ⟨_, rfl, ready, ?_, rfl⟩)
      rw [PairingCall.exec, exec]
      rfl
  | logIn | createFailed | pair | refresh | claim | letIn | serve => exact .inl ⟨rfl, rfl⟩

theorem AuthWorld.pairing_procs {i : ℕ} (hp : w.procs i = some h) :
    w.pairing.procs i = h.pairingCall := by
  change (w.procs i).bind AuthHandler.pairingCall = _
  rw [hp, Option.bind_some]

/-- The calls after a handler has moved. -/
theorem AuthWorld.pairing_update {procs : ℕ → Option AuthHandler} {i : ℕ}
    (hprocs : procs = Function.update w.procs i (some h)) :
    AuthWorld.pairing ⟨s, procs⟩
      = ⟨s.codes, Function.update w.pairing.procs i h.pairingCall⟩ := by
  refine congrArg (World.mk s.codes) ?_
  funext j
  change (procs j).bind AuthHandler.pairingCall = _
  by_cases hj : j = i
  · subst hj
    rw [hprocs, Function.update_self, Function.update_self, Option.bind_some]
  · rw [hprocs, Function.update_of_ne hj, Function.update_of_ne hj]
    rfl

/-- **The pairing codes of the server** are those of the module on pairing codes. -/
theorem AuthStep.pairing (step : AuthStep crates verify w ev w') :
    ∃ trace, Run (PairingCodesStep verify) w.pairing trace w'.pairing := by
  obtain ⟨s', procs'⟩ := w'
  have hstay : ∀ {i : ℕ} {q : AuthHandler}, s'.codes = w.shared.codes →
      procs' = Function.update w.procs i (some q) → q.pairingCall = w.pairing.procs i →
      ∃ trace, Run (PairingCodesStep verify) w.pairing trace (AuthWorld.pairing ⟨s', procs'⟩) := by
    intro i q hcodes hprocs hcall
    have heq : AuthWorld.pairing ⟨s', procs'⟩ = w.pairing := by
      rw [AuthWorld.pairing_update hprocs, hcall, Function.update_eq_self, hcodes]
      rfl
    exact ⟨[], heq ▸ .nil⟩
  rcases step.cases with ⟨i, p, hinit, hnone, hshared, hprocs⟩ | ⟨i, draw, p, q, hp, moves, hprocs⟩
  · refine hstay (congrArg AuthState.codes hshared) hprocs ?_
    change _ = (w.procs i).bind AuthHandler.pairingCall
    rw [AuthHandler.pairingCall_of_init hinit, hnone, Option.bind_none]
  · have hcall : w.pairing.procs i = p.pairingCall := AuthWorld.pairing_procs hp
    rcases moves.pairingCall with ⟨hcodes, hsame⟩ | ⟨hcodes, hnone, call, hstart, hinit⟩ |
      ⟨call, hbefore, hready, hexec, hsome⟩
    · exact hstay hcodes hprocs (hsame.trans hcall.symm)
    · -- the call of the database begins
      refine ⟨[.start i call], Run.single ⟨⟨hcall.trans hnone, hinit⟩, ?_⟩⟩
      rw [AuthWorld.pairing_update hprocs, hstart, Program.next, hcodes]
      rfl
    · -- one of its statements
      obtain ⟨call', hafter⟩ := Option.isSome_iff_exists.mp hsome
      rw [hafter, Option.getD_some] at hexec
      refine ⟨[.exec i draw.pairing], Run.single ⟨⟨call, hcall.trans hbefore, hready⟩, ?_⟩⟩
      have hexec' : (pairingProgram verify).exec w.pairing.shared i call draw.pairing
          = (s'.codes, call') := hexec
      rw [AuthWorld.pairing_update hprocs, hafter, Program.next]
      simp only [hcall.trans hbefore, hexec']

/-- A run of the handlers is a run of the statements on pairing codes. -/
theorem AuthWorld.pairing_run (run : Run (AuthStep crates verify) w₀ trace w) :
    ∃ trace, Run (PairingCodesStep verify) w₀.pairing trace w.pairing := by
  induction run with
  | nil => exact ⟨[], .nil⟩
  | snoc _ step ih =>
      obtain ⟨before, hbefore⟩ := ih
      obtain ⟨more, hmore⟩ := AuthStep.pairing step
      exact ⟨before ++ more, hbefore.trans hmore⟩

end Pairing

end Savr
