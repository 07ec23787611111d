import Savr.Server.Requests

/-!
# Who gets in

Where the credentials of a server come from that has been set up with its owners and knows no
device yet.  A handler that has answered keeps its place, so that the answers are a record of
who was given what; every step adds to it, and checks against it.

## Main results

* `AuthWorld.Sound.step` — every step accounts for the credentials there are.
* `calls_trace_to_owner` — whoever gets in was let in by the owner.
* `paired_device_gets_in` — and a device that was stays in until it is revoked.
-/

namespace Savr

open LabelledRun Interleaving

/-! ## Credentials -/

section Credentials

variable (crates : TokenCrates) (verify : String → String → Bool)

namespace AuthWorld

/-- An owner has logged in with the password, and was given this session. -/
def Session (w : AuthWorld) (account : AccountId) (token : String) (mintedAt : UtcTime) : Prop :=
  ∃ i password owner, w.procs i = some (.login password (.granted owner token mintedAt)) ∧
    owner ∈ w.shared.owners ∧ owner.id = account ∧
    verify password owner.ownerHash = true ∧
    token = mintOwnerSession crates w.shared.jwtSecret account mintedAt

/-- The header carries a session of the account that is not over. -/
def AuthorizedBy (w : AuthWorld) (authorization : Option String) (account : AccountId)
    (now : UtcTime) : Prop :=
  ∃ token mintedAt, bearer authorization = .ok token ∧
    w.Session crates verify account token mintedAt ∧
    now.timestamp ≤ mintedAt.timestamp + sessionTtlSecs + leeway

/-- The row was inserted under a session of its account. -/
def MadeCode (w : AuthWorld) (row : PairingCodeRow) : Prop :=
  ∃ i authorization authorizedAt now expiresAt,
    w.procs i = some (.pairCode authorization
      (.created row.accountId authorizedAt now expiresAt row)) ∧
    w.AuthorizedBy crates verify authorization row.accountId authorizedAt ∧
    row.expiresAt = expiresAt.toRfc3339 ∧
    expiresAt.instant = now.instant + pairingTtlSecs * 10 ^ 9

/-- The device was paired, with a code of its account. -/
def Paired (w : AuthWorld) (i : ℕ) (req : PairRequest) (now : UtcTime) (pairing : Pairing) :
    Prop :=
  w.procs i = some (.pair req (.paired now pairing)) ∧
    w.MadeCode crates verify pairing.row ∧ pairing.device < 2 ^ 128 ∧
    pairing.accessToken = mintAccessToken crates w.shared.jwtSecret pairing.row.accountId
      pairing.device pairing.mintedAt

/-- Some pairing made it a device of the account. -/
def IsPaired (w : AuthWorld) (auth : Authed) : Prop :=
  ∃ i req now pairing, w.Paired crates verify i req now pairing ∧
    auth = ⟨pairing.row.accountId, pairing.device⟩

/-- The token was handed out to the device: by its pairing, or later for its refresh secret.
Either way the device was paired before. -/
def HandedOut (w : AuthWorld) (auth : Authed) (token : String) (mintedAt : UtcTime) : Prop :=
  ((∃ i req now pairing, w.procs i = some (.pair req (.paired now pairing)) ∧
      auth = ⟨pairing.row.accountId, pairing.device⟩ ∧ token = pairing.accessToken ∧
      mintedAt = pairing.mintedAt) ∨
    ∃ i refreshSecret, w.procs i = some (.refresh auth.deviceId refreshSecret
      (.granted auth.accountId token mintedAt))) ∧
  w.IsPaired crates verify auth ∧
  token = mintAccessToken crates w.shared.jwtSecret auth.accountId auth.deviceId mintedAt

/-- The header carries a token of the device that is not over. -/
def Carries (w : AuthWorld) (authorization : Option String) (auth : Authed) (now : UtcTime) :
    Prop :=
  ∃ token mintedAt, bearer authorization = .ok token ∧
    w.HandedOut crates verify auth token mintedAt ∧
    now.timestamp ≤ mintedAt.timestamp + accessTtlSecs + leeway

/-- What a handler has made sure of, where it is: what later handlers rely on when they are
given what it returned. -/
def Knows (w : AuthWorld) : AuthHandler → Prop
  | .login password (.granted owner token mintedAt) =>
      owner ∈ w.shared.owners ∧ verify password owner.ownerHash = true ∧
        token = mintOwnerSession crates w.shared.jwtSecret owner.id mintedAt
  | .pairCode authorization (.creating account authorizedAt now expiresAt _) =>
      w.AuthorizedBy crates verify authorization account authorizedAt ∧
        expiresAt.instant = now.instant + pairingTtlSecs * 10 ^ 9
  | .pairCode authorization (.created account authorizedAt now expiresAt row) =>
      w.AuthorizedBy crates verify authorization account authorizedAt ∧
        expiresAt.instant = now.instant + pairingTtlSecs * 10 ^ 9 ∧
        row.accountId = account ∧ row.expiresAt = expiresAt.toRfc3339
  | .pair _ (.redeeming _ phase) => ∀ row ∈ phase.rows, w.MadeCode crates verify row
  | .pair _ (.paired _ pairing) =>
      w.MadeCode crates verify pairing.row ∧ pairing.device < 2 ^ 128 ∧
        pairing.accessToken = mintAccessToken crates w.shared.jwtSecret pairing.row.accountId
          pairing.device pairing.mintedAt ∧
        ∃ d ∈ w.shared.db.devices, d.id = pairing.device ∧ d.accountId = pairing.row.accountId ∧
          verify pairing.refreshSecret d.tokenHash = true
  | .refresh device _ (.granted account token mintedAt) =>
      w.IsPaired crates verify ⟨account, device⟩ ∧
        token = mintAccessToken crates w.shared.jwtSecret account device mintedAt
  | .call authorization _ (.claimed auth now)
  | .call authorization _ (.admitted auth now)
  | .call authorization _ (.served auth now) => w.Carries crates verify authorization auth now
  | _ => True

/-- Where every credential there is comes from: codes from a session, devices from a code,
tokens from one of these. -/
structure Sound (w : AuthWorld) : Prop where
  owners : ∀ owner ∈ w.shared.owners, owner.id < 2 ^ 128
  keys : w.shared.db.DeviceKeys
  knows : ∀ i h, w.procs i = some h → w.Knows crates verify h
  rows : ∀ r ∈ w.shared.codes.rows, w.MadeCode crates verify r ∨ r.used = true
  devices : ∀ d ∈ w.shared.db.devices, w.IsPaired crates verify ⟨d.accountId, d.id⟩
  issued : ∀ token ∈ w.shared.issued,
    (∃ account mintedAt, w.Session crates verify account token mintedAt) ∨
    ∃ auth mintedAt, w.HandedOut crates verify auth token mintedAt

/-- The secret and the owners stay, and so do the devices with their credentials, and what a
handler has answered. -/
structure Later (w w' : AuthWorld) : Prop where
  owners : w'.shared.owners = w.shared.owners
  jwtSecret : w'.shared.jwtSecret = w.shared.jwtSecret
  devices : ∀ d ∈ w.shared.db.devices, ∃ d' ∈ w'.shared.db.devices,
    d'.id = d.id ∧ d'.accountId = d.accountId ∧ d'.tokenHash = d.tokenHash
  kept : ∀ i h, w.procs i = some h → (∀ s draw, ¬ h.Ready crates verify s draw) →
    w'.procs i = some h

end AuthWorld

end Credentials

section Later

variable {crates : TokenCrates} {verify : String → String → Bool} {w w' : AuthWorld}
  {account : AccountId} {auth : Authed} {token : String} {now mintedAt : UtcTime}
  {authorization : Option String} {row : PairingCodeRow} {i : ℕ} {req : PairRequest}
  {pairing : Pairing} {ev : Event ℕ AuthHandler AuthDraw}

/-- An update of a device's row that keeps its credentials. -/
theorem exists_updateDevice {db : Db} {account : AccountId} {device : DeviceId}
    {change : DeviceRow → DeviceRow} (hid : ∀ d, (change d).id = d.id)
    (hacc : ∀ d, (change d).accountId = d.accountId)
    (hhash : ∀ d, (change d).tokenHash = d.tokenHash) {d : DeviceRow} (hd : d ∈ db.devices) :
    ∃ d' ∈ (db.updateDevice account device change).1.devices,
      d'.id = d.id ∧ d'.accountId = d.accountId ∧ d'.tokenHash = d.tokenHash := by
  refine ⟨_, List.mem_map_of_mem hd, ?_⟩
  rw [Db.updateDeviceRow]
  split_ifs
  · exact ⟨hid d, hacc d, hhash d⟩
  · exact ⟨rfl, rfl, rfl⟩

/-- No call takes a device away, or changes its credentials. -/
theorem exists_perform {db : Db} {account : AccountId} (c : Db.AccountCall) {d : DeviceRow}
    (hd : d ∈ db.devices) : ∃ d' ∈ (db.perform account c).devices,
      d'.id = d.id ∧ d'.accountId = d.accountId ∧ d'.tokenHash = d.tokenHash := by
  have hsame : ∀ {db' : Db}, db'.devices = db.devices → ∃ d' ∈ db'.devices,
      d'.id = d.id ∧ d'.accountId = d.accountId ∧ d'.tokenHash = d.tokenHash := fun h =>
    ⟨d, h ▸ hd, rfl, rfl, rfl⟩
  cases c with
  | ensureGame title steamAppid id =>
      refine hsame ?_
      rcases db.ensureGame_cases account title steamAppid id with
        ⟨row, -, heq⟩ | ⟨-, ⟨row, -, heq⟩ | ⟨-, ⟨e, heq⟩ | ⟨-, heq⟩⟩⟩ <;>
        rw [Db.perform, heq]
  | createVersion gameId req id now =>
      refine hsame ?_
      rw [Db.perform]
      rcases Db.createVersion_eq db account gameId req id now with heq | ⟨-, heq⟩ <;> rw [heq]
      rfl
  | resolveConflict gameId winner keepBoth id now =>
      refine hsame ?_
      rw [Db.perform]
      rcases Db.resolveConflict_eq db account gameId winner keepBoth id now with
        heq | ⟨cur, heq⟩ <;> rw [heq]
      rfl
  | putConfig incoming seed draw =>
      refine hsame ?_
      rw [Db.perform, (Db.configOnly_putConfig incoming seed draw).rest]
  | revokeDevice device =>
      have hkeeps : ∀ d : DeviceRow, ({ d with revoked := true } : DeviceRow).id = d.id :=
        fun _ => rfl
      exact exists_updateDevice hkeeps (fun _ => rfl) (fun _ => rfl) hd
  | touchDevice device now =>
      have hkeeps : ∀ d : DeviceRow, ({ d with lastSeen := some now } : DeviceRow).id = d.id :=
        fun _ => rfl
      exact exists_updateDevice hkeeps (fun _ => rfl) (fun _ => rfl) hd

/-- The devices after a new one. -/
theorem devices_of_createDevice {db db' : Db} {account : AccountId} {device : DeviceId}
    {name : String} {os : Os} {tokenHash : String} {now : Timestamp}
    (h : db.createDevice account device name os tokenHash now = .ok db') :
    db'.devices = db.devices ++ [⟨device, account, name, os, tokenHash, some now, false⟩] := by
  rw [Db.createDevice] at h
  split_ifs at h
  exact Except.ok.inj h ▸ rfl

theorem exists_of_createDevice {db db' : Db} {account : AccountId} {device : DeviceId}
    {name : String} {os : Os} {tokenHash : String} {now : Timestamp}
    (h : db.createDevice account device name os tokenHash now = .ok db') :
    ∃ d ∈ db'.devices, d.id = device ∧ d.accountId = account ∧ d.tokenHash = tokenHash := by
  rw [devices_of_createDevice h]
  exact ⟨_, List.mem_append_right _ (List.mem_singleton_self _), rfl, rfl, rfl⟩

theorem AuthHandler.Moves.constants {s s' : AuthState} {h h' : AuthHandler} {draw : AuthDraw}
    (moves : h.Moves crates verify s draw s' h') :
    s'.owners = s.owners ∧ s'.jwtSecret = s.jwtSecret := by
  cases moves <;> exact ⟨rfl, rfl⟩

/-- A step takes no device away and changes neither its account nor its secret. -/
theorem AuthHandler.Moves.devices {s s' : AuthState} {h h' : AuthHandler} {draw : AuthDraw}
    (moves : h.Moves crates verify s draw s' h') {d : DeviceRow} (hd : d ∈ s.db.devices) :
    ∃ d' ∈ s'.db.devices,
      d'.id = d.id ∧ d'.accountId = d.accountId ∧ d'.tokenHash = d.tokenHash := by
  cases moves with
  | pair fits hashed createDevice =>
      refine ⟨d, ?_, rfl, rfl, rfl⟩
      rw [devices_of_createDevice createDevice]
      exact List.mem_append_left _ hd
  | serve => exact exists_perform _ hd
  | _ => exact ⟨d, hd, rfl, rfl, rfl⟩

/-- The rows after a statement of a redemption: those before, and used ones. -/
theorem mem_rows_of_execRedeem {t : PairingTable} {code : String} {draw : PairingDraw}
    {phase : RedeemPhase} {r : PairingCodeRow}
    (hr : r ∈ (PairingCall.execRedeem verify t code draw phase).1.rows) :
    r ∈ t.rows ∨ r.used = true := by
  have hburn : ∀ id, r ∈ (t.burn id).1.rows → r ∈ t.rows ∨ r.used = true := by
    intro id hr
    obtain ⟨r', hr', rfl⟩ := List.mem_map.mp hr
    rw [PairingTable.burnRow]
    split_ifs
    · exact .inr rfl
    · exact .inl hr'
  cases phase with
  | burn row rest =>
      rw [PairingCall.execRedeem] at hr
      split_ifs at hr
      · exact hburn _ hr
      · exact hburn _ hr
      · exact .inl hr
  | scan rows => cases rows <;> exact .inl hr
  | select | redeemed | refused | failed => exact .inl hr

/-- The rows after a statement of a creation: those before, and, if it succeeds, the new one. -/
theorem mem_rows_of_execCreate {t : PairingTable} {account : AccountId}
    {now expiresAt : UtcTime} {draw : PairingDraw} {phase : CreatePhase} {r : PairingCodeRow}
    (hr : r ∈ (PairingCall.execCreate t account now expiresAt draw phase).1.rows) :
    r ∈ t.rows ∨ (PairingCall.execCreate t account now expiresAt draw phase).2 = .created ∧
      r = { id := draw.id, accountId := account, codeHash := draw.codeHash
            expiresAt := expiresAt.toRfc3339, used := false, createdAt := now.toRfc3339 } := by
  cases phase with
  | insert =>
      rw [PairingCall.execCreate] at hr ⊢
      split at hr
      · rename_i t' hinsert
        split_ifs at hinsert with hok
        rw [PairingTable.insert] at hinsert
        split_ifs at hinsert with hfresh
        obtain rfl := Option.some.inj hinsert
        rcases List.mem_append.mp hr with hr | hr
        · exact .inl hr
        · exact .inr ⟨rfl, List.mem_singleton.mp hr⟩
      · exact .inl hr
  | count | created | tooMany | failed => exact .inl hr

/-- The rows after a step: those before, used ones, and the one it inserts. -/
theorem AuthHandler.Moves.mem_rows {s s' : AuthState} {h h' : AuthHandler} {draw : AuthDraw}
    (moves : h.Moves crates verify s draw s' h') {r : PairingCodeRow} (hr : r ∈ s'.codes.rows) :
    r ∈ s.codes.rows ∨ r.used = true ∨ ∃ authorization account authorizedAt now expiresAt,
      h' = .pairCode authorization (.created account authorizedAt now expiresAt r) := by
  cases moves with
  | redeem ready exec =>
      obtain rfl := congrArg Prod.fst exec
      exact (mem_rows_of_execRedeem hr).imp_right .inl
  | create ready exec going =>
      obtain rfl := congrArg Prod.fst exec
      refine (mem_rows_of_execCreate hr).imp_right fun hnew => absurd ?_ going
      exact (congrArg Prod.snd exec).symm.trans hnew.1
  | created ready exec =>
      obtain rfl := congrArg Prod.fst exec
      exact (mem_rows_of_execCreate hr).imp_right fun hnew => .inr ⟨_, _, _, _, _, by rw [hnew.2]⟩
  | _ => exact .inl hr

/-- The devices after a step: those before, and the one that is paired in it. -/
theorem AuthHandler.Moves.mem_devices {s s' : AuthState} {h h' : AuthHandler} {draw : AuthDraw}
    (moves : h.Moves crates verify s draw s' h') {d' : DeviceRow} (hd' : d' ∈ s'.db.devices) :
    (∃ d ∈ s.db.devices, d'.id = d.id ∧ d'.accountId = d.accountId) ∨
    ∃ req now pairing, h' = .pair req (.paired now pairing) ∧ d'.id = pairing.device ∧
      d'.accountId = pairing.row.accountId := by
  cases moves with
  | pair fits hashed createDevice =>
      rw [devices_of_createDevice createDevice] at hd'
      rcases List.mem_append.mp hd' with hd' | hd'
      · exact .inl ⟨d', hd', rfl, rfl⟩
      · obtain rfl := List.mem_singleton.mp hd'
        exact .inr ⟨_, _, _, rfl, rfl, rfl⟩
  | @serve _ c auth =>
      obtain ⟨change, hkeeps, hdevices⟩ :=
        @Db.perform_devices s.db auth.accountId c
      rw [hdevices] at hd'
      obtain ⟨d, hd, rfl⟩ := List.mem_map.mp hd'
      exact .inl ⟨d, hd, hkeeps.id d, hkeeps.accountId d⟩
  | _ => exact .inl ⟨d', hd', rfl, rfl⟩

/-- A step keeps the ids of the devices distinct. -/
theorem AuthHandler.Moves.keys {s s' : AuthState} {h h' : AuthHandler} {draw : AuthDraw}
    (moves : h.Moves crates verify s draw s' h') (keys : s.db.DeviceKeys) : s'.db.DeviceKeys := by
  cases moves with
  | pair fits hashed createDevice => exact keys.createDevice createDevice
  | @serve _ c auth =>
      obtain ⟨change, hkeeps, hdevices⟩ := @Db.perform_devices s.db auth.accountId c
      exact keys.map hkeeps hdevices
  | _ => exact keys

/-- The tokens after a step: those before, and the one that is its answer. -/
theorem AuthHandler.Moves.mem_issued {s s' : AuthState} {h h' : AuthHandler} {draw : AuthDraw}
    (moves : h.Moves crates verify s draw s' h') {token : String} (htoken : token ∈ s'.issued) :
    token ∈ s.issued ∨
    (∃ password owner mintedAt, h' = .login password (.granted owner token mintedAt)) ∨
    (∃ req now pairing, h' = .pair req (.paired now pairing) ∧ pairing.accessToken = token) ∨
    ∃ device refreshSecret account mintedAt,
      h' = .refresh device refreshSecret (.granted account token mintedAt) := by
  cases moves with
  | logIn mem verified =>
      rcases List.mem_cons.mp htoken with rfl | hold
      · exact .inr (.inl ⟨_, _, _, rfl⟩)
      · exact .inl hold
  | pair fits hashed createDevice =>
      rcases List.mem_cons.mp htoken with rfl | hold
      · exact .inr (.inr (.inl ⟨_, _, _, rfl, rfl⟩))
      · exact .inl hold
  | refresh credentials verified =>
      rcases List.mem_cons.mp htoken with rfl | hold
      · exact .inr (.inr (.inr ⟨_, _, _, _, rfl⟩))
      · exact .inl hold
  | _ => exact .inl htoken

/-- A step only adds to what there is to trace back. -/
theorem AuthStep.later (step : AuthStep crates verify w ev w') : w.Later crates verify w' := by
  have hkept : ∀ i h, w.procs i = some h → (∀ s draw, ¬ h.Ready crates verify s draw) →
      w'.procs i = some h := by
    intro i h hp hdone
    rcases Program.Step.procs_next step hp with ⟨-, hp'⟩ | ⟨draw, -, hready, -⟩
    · exact hp'
    · exact absurd hready (hdone _ _)
  rcases step.cases with ⟨i, p, -, -, hshared, -⟩ | ⟨i, draw, p, q, -, moves, -⟩
  · exact ⟨congrArg AuthState.owners hshared, congrArg AuthState.jwtSecret hshared,
      fun d hd => ⟨d, hshared ▸ hd, rfl, rfl, rfl⟩, hkept⟩
  · exact ⟨moves.constants.1, moves.constants.2, fun d hd => moves.devices hd, hkept⟩

namespace AuthWorld

theorem Session.later (h : w.Session crates verify account token mintedAt)
    (later : w.Later crates verify w') : w'.Session crates verify account token mintedAt := by
  obtain ⟨i, password, owner, hp, hmem, hid, hverify, htoken⟩ := h
  refine ⟨i, password, owner, later.kept i _ hp (fun _ _ => id), ?_, hid, hverify, ?_⟩
  · rwa [later.owners]
  · rwa [later.jwtSecret]

theorem AuthorizedBy.later (h : w.AuthorizedBy crates verify authorization account now)
    (later : w.Later crates verify w') :
    w'.AuthorizedBy crates verify authorization account now := by
  obtain ⟨token, mintedAt, hbearer, hsession, hin⟩ := h
  exact ⟨token, mintedAt, hbearer, hsession.later later, hin⟩

theorem MadeCode.later (h : w.MadeCode crates verify row) (later : w.Later crates verify w') :
    w'.MadeCode crates verify row := by
  obtain ⟨i, authorization, authorizedAt, now, expiresAt, hp, hauth, hexpires⟩ := h
  exact ⟨i, authorization, authorizedAt, now, expiresAt, later.kept i _ hp (fun _ _ => id),
    hauth.later later, hexpires⟩

theorem Paired.later (h : w.Paired crates verify i req now pairing)
    (later : w.Later crates verify w') : w'.Paired crates verify i req now pairing := by
  obtain ⟨hp, hmade, hfits, htoken⟩ := h
  exact ⟨later.kept i _ hp (fun _ _ => id), hmade.later later, hfits, by rwa [later.jwtSecret]⟩

theorem IsPaired.later (h : w.IsPaired crates verify auth) (later : w.Later crates verify w') :
    w'.IsPaired crates verify auth := by
  obtain ⟨i, req, now, pairing, hpaired, hauth⟩ := h
  exact ⟨i, req, now, pairing, hpaired.later later, hauth⟩

/-- A token that was handed out stays handed out. -/
theorem HandedOut.later (h : w.HandedOut crates verify auth token mintedAt)
    (later : w.Later crates verify w') : w'.HandedOut crates verify auth token mintedAt := by
  obtain ⟨hanswer, hpaired, htoken⟩ := h
  refine ⟨hanswer.imp ?_ ?_, hpaired.later later, by rwa [later.jwtSecret]⟩
  · rintro ⟨i, req, now, pairing, hp, hgiven⟩
    exact ⟨i, req, now, pairing, later.kept i _ hp (fun _ _ => id), hgiven⟩
  · rintro ⟨i, refreshSecret, hp⟩
    exact ⟨i, refreshSecret, later.kept i _ hp (fun _ _ => id)⟩

theorem Carries.later (h : w.Carries crates verify authorization auth now)
    (later : w.Later crates verify w') : w'.Carries crates verify authorization auth now := by
  obtain ⟨token, mintedAt, hbearer, hout, hin⟩ := h
  exact ⟨token, mintedAt, hbearer, hout.later later, hin⟩

/-- What a request relies on stays true. -/
theorem Knows.later {h : AuthHandler} (hknows : w.Knows crates verify h)
    (later : w.Later crates verify w') : w'.Knows crates verify h := by
  match h, hknows with
  | .login password (.granted owner token mintedAt), ⟨hmem, hverify, htoken⟩ =>
      exact ⟨by rwa [later.owners], hverify, by rwa [later.jwtSecret]⟩
  | .pairCode authorization (.creating account authorizedAt now expiresAt phase), hknows =>
      exact ⟨hknows.1.later later, hknows.2⟩
  | .pairCode authorization (.created account authorizedAt now expiresAt row), hknows =>
      exact ⟨hknows.1.later later, hknows.2⟩
  | .pair req (.redeeming now phase), hknows => exact fun row hrow => (hknows row hrow).later later
  | .pair req (.paired now pairing), ⟨hmade, hfits, htoken, d, hd, hid, hacc, hverify⟩ =>
      obtain ⟨d', hd', hid', hacc', hhash⟩ := later.devices d hd
      exact ⟨hmade.later later, hfits, by rwa [later.jwtSecret], d', hd', hid'.trans hid,
        hacc'.trans hacc, by rwa [hhash]⟩
  | .refresh device refreshSecret (.granted account token mintedAt), ⟨hpaired, htoken⟩ =>
      exact ⟨hpaired.later later, by rwa [later.jwtSecret]⟩
  | .call authorization c (.claimed auth now), hknows
  | .call authorization c (.admitted auth now), hknows
  | .call authorization c (.served auth now), hknows => exact Carries.later hknows later
  | .login _ .select, _ | .login _ .refused, _ | .pairCode _ .authorize, _
  | .pairCode _ .refused, _ | .pair _ .guard, _ | .pair _ (.failed _ _), _
  | .pair _ .lockedOut, _ | .refresh _ _ .select, _ | .refresh _ _ .refused, _
  | .call _ _ .verify, _ | .call _ _ .refused, _ => trivial

theorem Session.lt (h : w.Session crates verify account token mintedAt)
    (sound : w.Sound crates verify) : account < 2 ^ 128 := by
  obtain ⟨i, password, owner, -, hmem, rfl, -⟩ := h
  exact sound.owners owner hmem

theorem MadeCode.lt (h : w.MadeCode crates verify row) (sound : w.Sound crates verify) :
    row.accountId < 2 ^ 128 := by
  obtain ⟨i, authorization, authorizedAt, now, expiresAt, -, hauth, -⟩ := h
  obtain ⟨token, mintedAt, -, hsession, -⟩ := hauth
  exact hsession.lt sound

theorem IsPaired.lt (h : w.IsPaired crates verify auth) (sound : w.Sound crates verify) :
    auth.accountId < 2 ^ 128 ∧ auth.deviceId < 2 ^ 128 := by
  obtain ⟨i, req, now, pairing, ⟨-, hmade, hfits, -⟩, rfl⟩ := h
  exact ⟨hmade.lt sound, hfits⟩

/-- **A session is not taken for a device's token**, nor the other way round. -/
theorem Sound.authorizedBy (sound : w.Sound crates verify)
    (presentable : w.shared.Presentable crates authorization)
    (h : ownerSession crates w.shared.jwtSecret authorization now = .ok account) :
    w.AuthorizedBy crates verify authorization account now := by
  obtain ⟨token, claims, hbearer, hverify, -⟩ := exists_of_ownerSession h
  rcases presentable token hbearer with hforeign | hissued
  · rw [verifyOwnerSession_of_decode_eq_none hforeign] at hverify
    cases hverify
  · rcases sound.issued token hissued with ⟨account', mintedAt, hsession⟩ | ⟨auth, mintedAt, hout⟩
    · obtain ⟨i, password, owner, -, -, -, -, rfl⟩ := id hsession
      obtain ⟨rfl, hin⟩ := eq_of_ownerSession (hsession.lt sound) hbearer h
      exact ⟨_, mintedAt, hbearer, hsession, hin⟩
    · obtain ⟨-, -, rfl⟩ := hout
      rw [verifyOwnerSession_mintAccessToken] at hverify
      cases hverify

/-- A token that is let in says truly whose it is. -/
theorem Sound.carries (sound : w.Sound crates verify)
    (presentable : w.shared.Presentable crates authorization)
    (h : claimedDevice crates w.shared.jwtSecret authorization now = .ok auth) :
    w.Carries crates verify authorization auth now := by
  obtain ⟨token, claims, hbearer, hverify, -⟩ := exists_of_claimedDevice h
  rcases presentable token hbearer with hforeign | hissued
  · rw [verifyAccess_of_decode_eq_none hforeign] at hverify
    cases hverify
  · rcases sound.issued token hissued with ⟨account, mintedAt, hsession⟩ | ⟨auth', mintedAt, hout⟩
    · obtain ⟨i, password, owner, -, -, -, -, rfl⟩ := hsession
      rw [verifyAccess_mintOwnerSession] at hverify
      cases hverify
    · obtain ⟨-, hpaired, rfl⟩ := id hout
      obtain ⟨haccount, hdevice⟩ := hpaired.lt sound
      obtain ⟨rfl, hin⟩ := eq_of_claimedDevice haccount hdevice hbearer h
      exact ⟨_, mintedAt, hbearer, hout, hin⟩

/-- **What a handler makes sure of** by its own step. -/
theorem Sound.knows_step (sound : w.Sound crates verify) (later : w.Later crates verify w')
    {h h' : AuthHandler} {draw : AuthDraw} (hp : w.procs i = some h)
    (moves : h.Moves crates verify w.shared draw w'.shared h') :
    w'.Knows crates verify h' := by
  have hknows := (sound.knows i h hp).later later
  obtain ⟨s', procs'⟩ := w'
  cases moves with
  | refuse before refused => cases h' <;> cases refused <;> trivial
  | logIn mem verified => exact ⟨mem, verified, rfl⟩
  | authorize presentable session expires =>
      exact ⟨(sound.authorizedBy presentable session).later later, expires⟩
  | create ready exec going => exact hknows
  | created ready exec => exact ⟨hknows.1, hknows.2, rfl, rfl⟩
  | letThrough => exact fun row hrow => absurd hrow List.not_mem_nil
  | redeem ready exec =>
      intro row hrow
      rename_i phase phase' codes
      obtain rfl : (PairingCall.execRedeem verify w.shared.codes _ draw.pairing phase).2 = phase' :=
        congrArg Prod.snd exec
      rcases mem_rows_execRedeem hrow with ⟨rfl, hread⟩ | hearlier
      · -- the `SELECT` returns rows that are not used
        obtain ⟨hrow, hactive⟩ := List.mem_filter.mp ((List.Perm.mem_iff ready).mp hread)
        rw [PairingCodeRow.active, Bool.and_eq_true, Bool.not_eq_true'] at hactive
        refine ((sound.rows row hrow).resolve_right ?_).later later
        rw [hactive.1]
        exact Bool.false_ne_true
      · exact hknows row hearlier
  | createFailed => trivial
  | pair fits hashed createDevice =>
      obtain ⟨d, hd, hid, hacc, hhash⟩ := exists_of_createDevice createDevice
      exact ⟨hknows _ (List.mem_singleton_self _), fits, rfl, d, hd, hid, hacc, hhash ▸ hashed⟩
  | refresh credentials verified =>
      refine ⟨?_, rfl⟩
      obtain ⟨d, hfind, heq⟩ := Option.map_eq_some_iff.mp credentials
      obtain ⟨rfl, -, -⟩ : d.accountId = _ ∧ d.tokenHash = _ ∧ d.revoked = _ := by simpa using heq
      obtain rfl : d.id = _ := by simpa using List.find?_some hfind
      exact (sound.devices d (List.mem_of_find?_eq_some hfind)).later later
  | claim presentable claimed => exact (sound.carries presentable claimed).later later
  | letIn active => exact hknows
  | serve => exact hknows

theorem Paired.isPaired (h : w.Paired crates verify i req now pairing) :
    w.IsPaired crates verify ⟨pairing.row.accountId, pairing.device⟩ :=
  ⟨i, req, now, pairing, h, rfl⟩

/-- A pairing that is finished. -/
theorem Knows.paired (hp : w.procs i = some (.pair req (.paired now pairing)))
    (hknows : w.Knows crates verify (.pair req (.paired now pairing))) :
    w.Paired crates verify i req now pairing :=
  ⟨hp, hknows.1, hknows.2.1, hknows.2.2.1⟩

/-- A handler that has made a code is where that code comes from. -/
theorem Knows.madeCode {authorizedAt expiresAt : UtcTime}
    (hp : w.procs i = some (.pairCode authorization
      (.created account authorizedAt now expiresAt row)))
    (hknows : w.Knows crates verify
      (.pairCode authorization (.created account authorizedAt now expiresAt row))) :
    w.MadeCode crates verify row := by
  obtain ⟨hauth, hexpires, rfl, hrow⟩ := hknows
  exact ⟨i, authorization, authorizedAt, now, expiresAt, hp, hauth, hrow, hexpires⟩

/-- A token is handed out for a device that was paired or refreshed. -/
theorem Sound.issued_step (sound : w.Sound crates verify) (later : w.Later crates verify w')
    (knows : ∀ i h, w'.procs i = some h → w'.Knows crates verify h) {h h' : AuthHandler}
    {draw : AuthDraw} (moves : h.Moves crates verify w.shared draw w'.shared h')
    (hp' : w'.procs i = some h') (htoken : token ∈ w'.shared.issued) :
    (∃ account mintedAt, w'.Session crates verify account token mintedAt) ∨
      ∃ auth mintedAt, w'.HandedOut crates verify auth token mintedAt := by
  have hknows := knows i h' hp'
  rcases moves.mem_issued htoken with hold | ⟨password, owner, mintedAt, rfl⟩ |
    ⟨req, now, pairing, rfl, rfl⟩ | ⟨device, refreshSecret, account, mintedAt, rfl⟩
  · refine (sound.issued token hold).imp ?_ ?_
    · rintro ⟨account, mintedAt, hsession⟩
      exact ⟨account, mintedAt, hsession.later later⟩
    · rintro ⟨auth, mintedAt, hout⟩
      exact ⟨auth, mintedAt, hout.later later⟩
  · exact .inl ⟨owner.id, mintedAt, i, password, owner, hp', hknows.1, rfl, hknows.2⟩
  · have hpaired := Knows.paired hp' hknows
    exact .inr ⟨_, pairing.mintedAt, .inl ⟨i, req, now, pairing, hp', rfl, rfl, rfl⟩,
      hpaired.isPaired, hpaired.2.2.2⟩
  · exact .inr ⟨⟨account, device⟩, mintedAt, .inr ⟨i, refreshSecret, hp'⟩, hknows⟩

/-- **Every step** accounts for the credentials there are. -/
theorem Sound.step (sound : w.Sound crates verify) (step : AuthStep crates verify w ev w') :
    w'.Sound crates verify := by
  have later := step.later
  have hknows : ∀ i h, w'.procs i = some h → w'.Knows crates verify h := by
    intro i h hp'
    rcases step.procs_cases hp' with hp | hinit | ⟨draw, p, hp, moves⟩
    · exact (sound.knows i h hp).later later
    · cases h <;> cases hinit <;> trivial
    · exact sound.knows_step later hp moves
  have howners : ∀ owner ∈ w'.shared.owners, owner.id < 2 ^ 128 := fun owner howner =>
    sound.owners owner (later.owners ▸ howner)
  rcases step.cases with ⟨i, p, -, -, hshared, -⟩ | ⟨i, draw, p, q, -, moves, hprocs⟩
  · refine ⟨howners, hshared ▸ sound.keys, hknows, fun r hr => ?_, fun d hd => ?_,
      fun token htoken => ?_⟩
    · exact (sound.rows r (hshared ▸ hr)).imp_left fun hmade => hmade.later later
    · exact (sound.devices d (hshared ▸ hd)).later later
    · refine (sound.issued token (hshared ▸ htoken)).imp ?_ ?_
      · rintro ⟨account, mintedAt, hsession⟩
        exact ⟨account, mintedAt, hsession.later later⟩
      · rintro ⟨auth, mintedAt, hout⟩
        exact ⟨auth, mintedAt, hout.later later⟩
  · have hq : w'.procs i = some q := by rw [hprocs, Function.update_self]
    refine ⟨howners, moves.keys sound.keys, hknows, fun r hr => ?_, fun d hd => ?_,
      fun token htoken => sound.issued_step later hknows moves hq htoken⟩
    · rcases moves.mem_rows hr with hr | hused |
        ⟨authorization, account, authorizedAt, now, expiresAt, rfl⟩
      · exact (sound.rows r hr).imp_left fun hmade => hmade.later later
      · exact .inr hused
      · exact .inl (Knows.madeCode hq (hknows i _ hq))
    · rcases moves.mem_devices hd with ⟨d', hd', hid, hacc⟩ | ⟨req, now, pairing, rfl, hid, hacc⟩
      · rw [hid, hacc]
        exact (sound.devices d' hd').later later
      · rw [hid, hacc]
        exact (Knows.paired hq (hknows i _ hq)).isPaired

end AuthWorld

end Later

/-! ## Runs -/

section Runs

variable {crates : TokenCrates} {verify : String → String → Bool} {w₀ w : AuthWorld}
  {auth : Authed} {now : UtcTime} {authorization : Option String}
  {trace : List (Event ℕ AuthHandler AuthDraw)}

/-- At first no token was handed out. -/
theorem AuthWorld.New.sound (new : w₀.New) : w₀.Sound crates verify where
  owners := new.owners
  keys := by
    rw [Db.DeviceKeys, new.devices]
    exact List.nodup_nil
  knows i h hp := by
    rw [new.procs i] at hp
    cases hp
  rows r hr := by
    rw [new.codes] at hr
    cases hr
  devices d hd := by
    rw [new.devices] at hd
    cases hd
  issued token htoken := by
    rw [new.issued] at htoken
    cases htoken

theorem AuthWorld.sound_of_run (run : Run (AuthStep crates verify) w₀ trace w) (new : w₀.New) :
    w.Sound crates verify :=
  run.invariant (I := AuthWorld.Sound crates verify) (fun _ _ _ sound step => sound.step step)
    new.sound

/-- What the module on pairing codes says of a pairing. -/
theorem redeemed_of_run (run : Run (AuthStep crates verify) w₀ trace w) (new : w₀.New) {i : ℕ}
    {req : PairRequest} {pairing : Pairing}
    (hp : w.procs i = some (.pair req (.paired now pairing))) :
    verify req.code pairing.row.codeHash = true ∧
    (∀ expiry : UtcTime, pairing.row.expiresAt = expiry.toRfc3339 →
      now.instant < expiry.instant) ∧
    ∀ j req' now' pairing', w.procs j = some (.pair req' (.paired now' pairing')) →
      pairing'.row.id = pairing.row.id → j = i := by
  obtain ⟨trace', hrun⟩ := AuthWorld.pairing_run run
  have hnew : ∀ i, w₀.pairing.procs i = none := fun i => by
    change (w₀.procs i).bind _ = none
    rw [new.procs i, Option.bind_none]
  have hredeemed : ∀ {j : ℕ} {req : PairRequest} {now : UtcTime} {pairing : Pairing},
      w.procs j = some (.pair req (.paired now pairing)) →
      w.pairing.Redeemed j req.code now pairing.row := fun hp => AuthWorld.pairing_procs hp
  obtain ⟨hdistinct, hrow, -⟩ := codes_single_use hrun hnew
  obtain ⟨hverify, -, hexpiry, -⟩ := hrow i req.code now pairing.row (hredeemed hp)
  exact ⟨hverify, hexpiry, fun j req' now' pairing' hj hid =>
    hdistinct j i _ _ _ _ _ _ (hredeemed hj) (hredeemed hp) hid⟩

/-- **Whoever gets in was let in by the owner.**  In every run of the server, and with any
verification of secrets: a call that was admitted carries a token that was handed out to its
device at most 15 minutes and the leeway before, and that is no session of the owner.  The
device was paired with a code of its account that had not expired, and no other pairing used
this code; the code was created under a session of this account, and that session was given
for the password of the owner. -/
theorem calls_trace_to_owner (run : Run (AuthStep crates verify) w₀ trace w) (new : w₀.New)
    {k : ℕ} {c : Db.AccountCall} {phase : CallPhase}
    (called : w.procs k = some (.call authorization c phase))
    (admitted : phase = .admitted auth now ∨ phase = .served auth now) :
    (∃ token mintedAt, bearer authorization = .ok token ∧
      w.HandedOut crates verify auth token mintedAt ∧
      now.timestamp ≤ mintedAt.timestamp + accessTtlSecs + leeway ∧
      ∀ i password owner loginAt,
        w.procs i ≠ some (.login password (.granted owner token loginAt))) ∧
    ∃ i req pairedAt pairing, w.procs i = some (.pair req (.paired pairedAt pairing)) ∧
      auth = ⟨pairing.row.accountId, pairing.device⟩ ∧
      verify req.code pairing.row.codeHash = true ∧
      (∀ j req' pairedAt' pairing', w.procs j = some (.pair req' (.paired pairedAt' pairing')) →
        pairing'.row.id = pairing.row.id → j = i) ∧
      ∃ j session authorizedAt createdAt expiresAt,
        w.procs j = some (.pairCode session
          (.created auth.accountId authorizedAt createdAt expiresAt pairing.row)) ∧
        pairedAt.instant < createdAt.instant + pairingTtlSecs * 10 ^ 9 ∧
        w.AuthorizedBy crates verify session auth.accountId authorizedAt := by
  have sound := AuthWorld.sound_of_run run new
  have hcarries : w.Carries crates verify authorization auth now := by
    rcases admitted with rfl | rfl <;> exact sound.knows k _ called
  obtain ⟨token, mintedAt, hbearer, hout, hin⟩ := hcarries
  obtain ⟨-, ⟨i, req, pairedAt, pairing, hpaired, rfl⟩, htoken⟩ := id hout
  refine ⟨⟨token, mintedAt, hbearer, hout, hin, fun j password owner loginAt hlogin => ?_⟩, ?_⟩
  · obtain ⟨-, -, hsession⟩ := sound.knows j _ hlogin
    exact mintAccessToken_ne_mintOwnerSession (htoken.symm.trans hsession)
  · obtain ⟨hp, hmade, -⟩ := hpaired
    obtain ⟨hverify, hexpiry, hsole⟩ := redeemed_of_run run new hp
    obtain ⟨j, session, authorizedAt, createdAt, expiresAt, hj, hauth, hrow, hexpires⟩ := hmade
    refine ⟨i, req, pairedAt, pairing, hp, rfl, hverify, hsole, j, session, authorizedAt,
      createdAt, expiresAt, hj, ?_, hauth⟩
    rw [← hexpires]
    exact hexpiry expiresAt hrow

end Runs

section Example

/-- The owner of the example. -/
def theOwner : OwnerRow := ⟨1, "argon2:hunter2"⟩

/-- The objects of the owner's session and of the laptop's token. -/
def ownerPayload : TokenPayload := SessionClaims.payload
  ⟨Uuid.text 1, "owner", (newYear 650 (by decide)).timestamp + sessionTtlSecs, "owner"⟩

/-- The token that the pairing of the laptop hands out. -/
def laptopPayload : TokenPayload := AccessClaims.payload
  ⟨Uuid.text 7, Uuid.text 1, (newYear 720 (by decide)).timestamp + accessTtlSecs, "access"⟩

/-- The tokens are `b` and `bb`. -/
noncomputable def twoTokens : TokenCrates := plainTokens [([3], ownerPayload), ([3], laptopPayload)]

/-- A server with its owner. -/
def ownedServer : AuthWorld where
  shared := ⟨[theOwner], [3], ⟨[], by decide⟩, ⟨[1], [], [], [], [], [], []⟩, []⟩
  procs := fun _ => none

theorem ownedServer_new : ownedServer.New :=
  ⟨by decide, rfl, rfl, rfl, fun _ => rfl⟩

/-- The owner logs in and makes a code, the laptop is paired with it and makes a call. The
steps of the four requests follow each other. -/
def pairAndCall : List (Event ℕ AuthHandler AuthDraw) :=
  let at_ (secs : ℕ) (h : secs < 86400) : AuthDraw :=
    { ok := true, now := newYear secs h, later := newYear 690 (by decide)
      expiresAt := newYear 990 (by decide), owner := some theOwner
      pairing := ⟨true, [⟨41, 1, "argon2:ABCD2345", (newYear 990 (by decide)).toRfc3339, false,
        (newYear 690 (by decide)).toRfc3339⟩], 41, "argon2:ABCD2345"⟩
      device := 7, refreshSecret := "5ec2e7", tokenHash := "argon2:5ec2e7" }
  [.start 0 (.login "hunter2" .select), .exec 0 (at_ 650 (by decide)),
    .start 1 (.pairCode (some "Bearer b") .authorize),
    .exec 1 (at_ 690 (by decide)), .exec 1 (at_ 690 (by decide)), .exec 1 (at_ 690 (by decide)),
    .start 2 (.pair ⟨"ABCD2345", "laptop", .linux⟩ .guard),
    .exec 2 (at_ 710 (by decide)), .exec 2 (at_ 710 (by decide)), .exec 2 (at_ 710 (by decide)),
    .exec 2 (at_ 710 (by decide)),
    .exec 2 { at_ 710 (by decide) with later := newYear 720 (by decide) },
    .start 3 (.call (some "Bearer bb") (.touchDevice 7 5) .verify),
    .exec 3 (at_ 850 (by decide)), .exec 3 (at_ 850 (by decide))]

/-- The laptop was paired, and a call of it was admitted. -/
noncomputable def afterPairAndCall : AuthWorld :=
  pairAndCall.foldl (authProgram twoTokens checkArgon).next ownedServer

theorem run_pairAndCall :
    Run (AuthStep twoTokens checkArgon) ownedServer pairAndCall afterPairAndCall :=
  Run.of_enabled (by decide +kernel)

/-- What a call that was admitted carried. -/
def admittedAt (w : AuthWorld) (k : ℕ) : Option (Option String × Authed × UtcTime) :=
  match w.procs k with
  | some (.call authorization _ (.admitted auth now)) => some (authorization, auth, now)
  | _ => none

/-- Who is admitted is a call that has been let in. -/
theorem exists_of_admittedAt {w : AuthWorld} {k : ℕ} {authorization : Option String}
    {auth : Authed} {now : UtcTime} (h : admittedAt w k = some (authorization, auth, now)) :
    ∃ c, w.procs k = some (.call authorization c (.admitted auth now)) := by
  rw [admittedAt] at h
  split at h
  · rename_i authorization' c auth' now' hp
    obtain ⟨rfl, rfl, rfl⟩ : authorization' = authorization ∧ auth' = auth ∧ now' = now := by
      simpa using h
    exact ⟨c, hp⟩
  · cases h

/-- In the example the laptop traces to a pairing with a code of its account. -/
theorem laptop_traces_to_owner :
    ∃ i req pairedAt pairing,
      afterPairAndCall.procs i = some (.pair req (.paired pairedAt pairing)) ∧
      (⟨1, 7⟩ : Authed) = ⟨pairing.row.accountId, pairing.device⟩ ∧
      checkArgon req.code pairing.row.codeHash = true := by
  have hadmitted : admittedAt afterPairAndCall 3
      = some (some "Bearer bb", ⟨1, 7⟩, newYear 850 (by decide)) := by decide +kernel
  obtain ⟨c, hcall⟩ := exists_of_admittedAt hadmitted
  obtain ⟨-, i, req, pairedAt, pairing, hp, hauth, hverify, -⟩ :=
    calls_trace_to_owner run_pairAndCall ownedServer_new hcall (.inl rfl)
  exact ⟨i, req, pairedAt, pairing, hp, hauth, hverify⟩

end Example

end Savr
