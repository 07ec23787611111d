import Savr.Core.PlainFormat
import Savr.Core.Rfc3339
import Savr.Server.Api
import Savr.System.Routes

/-!
# Tokens

The two kinds of tokens of `savr-server/src/auth.rs`: the access token of a device, and the
session token of the owner.  Both are signed with the one secret of the server, and both have
an account in them; what tells them apart are the members of their objects.

`jsonwebtoken` and `uuid` are no part of the repository.  What the server relies on is that a
token it has signed is read back, and an id from its text.

## Main results

* `verifyAccess_mintAccessToken`, `verifyOwnerSession_mintOwnerSession` — a token is accepted
  until its time to live is over, with the leeway.
* `verifyAccess_mintOwnerSession`, `verifyOwnerSession_mintAccessToken` — and never as one of
  the other kind.
-/

namespace Savr

/-- The members of a token's object that some claims have. -/
structure TokenPayload where
  sub : Option String
  acc : Option String
  role : Option String
  exp : Option ℕ
  typ : Option String
  deriving DecidableEq, Repr, Inhabited

/-- What the server uses of the crates: signed tokens and ids as text. The laws are that both
are read back, and that a token has no blanks. -/
structure TokenCrates where
  /-- Sign an object with a secret. -/
  encode : Bytes → TokenPayload → String
  /-- Check the signature, and read the object. -/
  decode : Bytes → String → Option TokenPayload
  /-- `Uuid::parse_str`. -/
  parseStr : String → Option Uuid
  decode_encode : ∀ secret payload, decode secret (encode secret payload) = some payload
  /-- The characters of a token are those of base64, and dots. -/
  encode_visible : ∀ secret payload, ∀ c ∈ (encode secret payload).toList, c ≠ ' ' ∧ c ≠ '\t'
  parseStr_text : ∀ u < 2 ^ 128, parseStr (Uuid.text u) = some u

/-- `ACCESS_TTL_SECS`. -/
def accessTtlSecs : ℕ := 15 * 60

/-- `SESSION_TTL_SECS`. -/
def sessionTtlSecs : ℕ := 60 * 60

/-- `Validation::leeway`. -/
def leeway : ℕ := 5

/-- `timestamp`: whole seconds since 1970.  An earlier clock is left out. -/
def UtcTime.timestamp (t : UtcTime) : ℕ := t.instant / 10 ^ 9 - 719528 * 86400

/-- The error of the extractors and of the verification. -/
inductive AuthError
  | unauthorized (message : String)
  | internal
  deriving DecidableEq, Repr

/-- The claims of an access token. -/
structure AccessClaims where
  /-- The device. -/
  sub : String
  acc : String
  exp : ℕ
  typ : String
  deriving DecidableEq, Repr

/-- The claims of an owner session. -/
structure SessionClaims where
  acc : String
  role : String
  exp : ℕ
  typ : String
  deriving DecidableEq, Repr

/-- The claims as a token carries them. -/
def AccessClaims.payload (c : AccessClaims) : TokenPayload where
  sub := c.sub
  acc := c.acc
  role := none
  exp := c.exp
  typ := c.typ

/-- The claims as a token carries them. -/
def SessionClaims.payload (c : SessionClaims) : TokenPayload where
  sub := none
  acc := c.acc
  role := c.role
  exp := c.exp
  typ := c.typ

/-- `Deserialize`; a missing `typ` is empty. -/
def TokenPayload.accessClaims (p : TokenPayload) : Option AccessClaims := do
  pure ⟨← p.sub, ← p.acc, ← p.exp, p.typ.getD ""⟩

/-- A token read as an owner session; a token of the other kind lacks its fields. -/
def TokenPayload.sessionClaims (p : TokenPayload) : Option SessionClaims := do
  pure ⟨← p.acc, ← p.role, ← p.exp, p.typ.getD ""⟩

section Verification

variable (crates : TokenCrates) (secret : Bytes)

/-- `mint_access_token`. -/
def mintAccessToken (account : AccountId) (device : DeviceId) (now : UtcTime) : String :=
  crates.encode secret (AccessClaims.payload
    ⟨Uuid.text device, Uuid.text account, now.timestamp + accessTtlSecs, "access"⟩)

/-- `mint_owner_session`. -/
def mintOwnerSession (account : AccountId) (now : UtcTime) : String :=
  crates.encode secret (SessionClaims.payload
    ⟨Uuid.text account, "owner", now.timestamp + sessionTtlSecs, "owner"⟩)

/-- `validation()`: an expiration date is required, and must not be over by more than the
leeway. -/
def unexpired (now : UtcTime) (exp : ℕ) : Bool := now.timestamp ≤ exp + leeway

/-- `verify_access`: the token decodes, has not expired and is of this type. A session of the
owner is another type. -/
def verifyAccess (token : String) (now : UtcTime) : Except AuthError AccessClaims :=
  match (crates.decode secret token).bind TokenPayload.accessClaims with
  | none => .error (.unauthorized "invalid or expired access token")
  | some claims =>
      if !unexpired now claims.exp then
        .error (.unauthorized "invalid or expired access token")
      else if claims.typ ≠ "access" then .error (.unauthorized "not an access token")
      else .ok claims

/-- `verify_owner_session`, which also asks for the role. A device's token has neither. -/
def verifyOwnerSession (token : String) (now : UtcTime) : Except AuthError SessionClaims :=
  match (crates.decode secret token).bind TokenPayload.sessionClaims with
  | none => .error (.unauthorized "invalid or expired session token")
  | some claims =>
      if !unexpired now claims.exp then
        .error (.unauthorized "invalid or expired session token")
      else if claims.typ ≠ "owner" ∨ claims.role ≠ "owner" then
        .error (.unauthorized "not an owner session")
      else .ok claims

/-- `str::trim`, of a header value: its characters are visible, or spaces, or tabs. -/
def trimHeader (text : String) : String :=
  let blank : Char → Bool := fun c => c = ' ' ∨ c = '\t'
  String.ofList ((text.toList.dropWhile blank).reverse.dropWhile blank).reverse

/-- The token of an `Authorization` header. -/
def bearer (authorization : Option String) : Except AuthError String :=
  match authorization with
  | none => .error (.unauthorized "missing Authorization header")
  | some value =>
      match stripPrefix "Bearer " value with
      | none => .error (.unauthorized "expected Bearer token")
      | some token => .ok (trimHeader token)

/-- The extractor `Authed`, up to its query: what the token says of account and device.
Whether there is such a device is looked up next. -/
def claimedDevice (authorization : Option String) (now : UtcTime) :
    Except AuthError Authed := do
  let claims ← verifyAccess crates secret (← bearer authorization) now
  match crates.parseStr claims.acc with
  | none => .error (.unauthorized "malformed acc claim")
  | some account =>
      match crates.parseStr claims.sub with
      | none => .error (.unauthorized "malformed sub claim")
      | some device => .ok ⟨account, device⟩

/-- The extractor `OwnerSession`. -/
def ownerSession (authorization : Option String) (now : UtcTime) :
    Except AuthError AccountId := do
  let claims ← verifyOwnerSession crates secret (← bearer authorization) now
  match crates.parseStr claims.acc with
  | none => .error (.unauthorized "malformed acc claim")
  | some account => .ok account

end Verification

section Verify

variable {crates : TokenCrates} {secret : Bytes} {account : AccountId} {device : DeviceId}
  {minted now : UtcTime} {authorization : Option String} {auth : Authed} {token : String}

/-- A minted access token verifies until it expires, within the leeway, and says what it was
minted for. -/
theorem verifyAccess_mintAccessToken :
    verifyAccess crates secret (mintAccessToken crates secret account device minted) now =
      if now.timestamp ≤ minted.timestamp + accessTtlSecs + leeway then
        .ok ⟨Uuid.text device, Uuid.text account, minted.timestamp + accessTtlSecs, "access"⟩
      else .error (.unauthorized "invalid or expired access token") := by
  rw [verifyAccess, mintAccessToken, crates.decode_encode]
  by_cases h : now.timestamp ≤ minted.timestamp + accessTtlSecs + leeway <;>
    simp [AccessClaims.payload, TokenPayload.accessClaims, unexpired, h]

/-- So does the session of an owner. -/
theorem verifyOwnerSession_mintOwnerSession :
    verifyOwnerSession crates secret (mintOwnerSession crates secret account minted) now =
      if now.timestamp ≤ minted.timestamp + sessionTtlSecs + leeway then
        .ok ⟨Uuid.text account, "owner", minted.timestamp + sessionTtlSecs, "owner"⟩
      else .error (.unauthorized "invalid or expired session token") := by
  rw [verifyOwnerSession, mintOwnerSession, crates.decode_encode]
  by_cases h : now.timestamp ≤ minted.timestamp + sessionTtlSecs + leeway <;>
    simp [SessionClaims.payload, TokenPayload.sessionClaims, unexpired, h]

/-- A session token has no device in it. -/
theorem verifyAccess_mintOwnerSession :
    verifyAccess crates secret (mintOwnerSession crates secret account minted) now =
      .error (.unauthorized "invalid or expired access token") := by
  rw [verifyAccess, mintOwnerSession, crates.decode_encode]
  rfl

/-- An access token has no role in it. -/
theorem verifyOwnerSession_mintAccessToken :
    verifyOwnerSession crates secret (mintAccessToken crates secret account device minted) now =
      .error (.unauthorized "invalid or expired session token") := by
  rw [verifyOwnerSession, mintAccessToken, crates.decode_encode]
  rfl

theorem verifyAccess_of_decode_eq_none (h : crates.decode secret token = none) :
    verifyAccess crates secret token now =
      .error (.unauthorized "invalid or expired access token") := by
  rw [verifyAccess, h]
  rfl

theorem verifyOwnerSession_of_decode_eq_none (h : crates.decode secret token = none) :
    verifyOwnerSession crates secret token now =
      .error (.unauthorized "invalid or expired session token") := by
  rw [verifyOwnerSession, h]
  rfl

/-- The two kinds of tokens differ. -/
theorem mintAccessToken_ne_mintOwnerSession {account' : AccountId} :
    mintAccessToken crates secret account device minted
      ≠ mintOwnerSession crates secret account' now := by
  intro h
  have hpayload := congrArg (crates.decode secret) h
  rw [mintAccessToken, mintOwnerSession, crates.decode_encode, crates.decode_encode] at hpayload
  cases hpayload

/-! ### The extractors -/

/-- A text without blanks is left as it is. -/
theorem trimHeader_eq_self {text : String} (h : ∀ c ∈ text.toList, c ≠ ' ' ∧ c ≠ '\t') :
    trimHeader text = text := by
  have hkeep : ∀ l : List Char, (∀ c ∈ l, c ≠ ' ' ∧ c ≠ '\t') →
      l.dropWhile (fun c => c = ' ' ∨ c = '\t') = l := by
    intro l hl
    cases l with
    | nil => rfl
    | cons c l =>
        refine List.dropWhile_cons_of_neg ?_
        have hc := hl c List.mem_cons_self
        simp [hc.1, hc.2]
  rw [trimHeader]
  simp only [hkeep _ h]
  rw [hkeep _ fun c hc => h c (List.mem_reverse.mp hc), List.reverse_reverse, String.ofList_toList]

/-- What an extractor accepts is a token that verifies. -/
theorem exists_of_claimedDevice (h : claimedDevice crates secret authorization now = .ok auth) :
    ∃ token claims, bearer authorization = .ok token ∧
      verifyAccess crates secret token now = .ok claims ∧
      crates.parseStr claims.acc = some auth.accountId ∧
      crates.parseStr claims.sub = some auth.deviceId := by
  rw [claimedDevice] at h
  rcases hbearer : bearer authorization with e | token
  · rw [hbearer] at h
    cases h
  · rw [hbearer] at h
    rcases hverify : verifyAccess crates secret token now with e | claims
    · simp [hverify, bind, Except.bind] at h
    · refine ⟨token, claims, rfl, hverify, ?_⟩
      simp only [hverify, bind, Except.bind] at h
      rcases hacc : crates.parseStr claims.acc with - | acc
      · simp [hacc] at h
      · rcases hsub : crates.parseStr claims.sub with - | sub
        · simp [hacc, hsub] at h
        · rw [hacc, hsub] at h
          cases h
          exact ⟨rfl, rfl⟩

/-- An owner session comes from a token that was verified. -/
theorem exists_of_ownerSession (h : ownerSession crates secret authorization now = .ok account) :
    ∃ token claims, bearer authorization = .ok token ∧
      verifyOwnerSession crates secret token now = .ok claims ∧
      crates.parseStr claims.acc = some account := by
  rw [ownerSession] at h
  rcases hbearer : bearer authorization with e | token
  · rw [hbearer] at h
    cases h
  · rw [hbearer] at h
    rcases hverify : verifyOwnerSession crates secret token now with e | claims
    · simp [hverify, bind, Except.bind] at h
    · refine ⟨token, claims, rfl, hverify, ?_⟩
      simp only [hverify, bind, Except.bind] at h
      rcases hacc : crates.parseStr claims.acc with - | acc
      · simp [hacc] at h
      · rw [hacc] at h
        cases h
        rfl

theorem claimedDevice_of_verifyAccess {claims : AccessClaims}
    (hbearer : bearer authorization = .ok token)
    (hverify : verifyAccess crates secret token now = .ok claims)
    (hacc : crates.parseStr claims.acc = some account)
    (hsub : crates.parseStr claims.sub = some device) :
    claimedDevice crates secret authorization now = .ok ⟨account, device⟩ := by
  simp only [claimedDevice, hbearer, hverify, bind, Except.bind, hacc, hsub]

/-- **An access token** names its device until its time is over. -/
theorem claimedDevice_mintAccessToken (haccount : account < 2 ^ 128) (hdevice : device < 2 ^ 128)
    (hbearer : bearer authorization = .ok (mintAccessToken crates secret account device minted))
    (intime : now.timestamp ≤ minted.timestamp + accessTtlSecs + leeway) :
    claimedDevice crates secret authorization now = .ok ⟨account, device⟩ :=
  claimedDevice_of_verifyAccess hbearer (verifyAccess_mintAccessToken.trans (if_pos intime))
    (crates.parseStr_text _ haccount) (crates.parseStr_text _ hdevice)

/-- Whom an access token lets through, and how long. -/
theorem eq_of_claimedDevice (haccount : account < 2 ^ 128) (hdevice : device < 2 ^ 128)
    (hbearer : bearer authorization = .ok (mintAccessToken crates secret account device minted))
    (h : claimedDevice crates secret authorization now = .ok auth) :
    auth = ⟨account, device⟩ ∧ now.timestamp ≤ minted.timestamp + accessTtlSecs + leeway := by
  obtain ⟨token, claims, htoken, hverify, -, -⟩ := exists_of_claimedDevice h
  obtain rfl := Except.ok.inj (hbearer.symm.trans htoken)
  by_cases intime : now.timestamp ≤ minted.timestamp + accessTtlSecs + leeway
  · have heq := claimedDevice_mintAccessToken haccount hdevice hbearer intime
    exact ⟨Except.ok.inj (h.symm.trans heq), intime⟩
  · rw [verifyAccess_mintAccessToken, if_neg intime] at hverify
    cases hverify

/-- A session opens the account it was minted for, and none after it has expired. -/
theorem eq_of_ownerSession {account' : AccountId} (haccount : account < 2 ^ 128)
    (hbearer : bearer authorization = .ok (mintOwnerSession crates secret account minted))
    (h : ownerSession crates secret authorization now = .ok account') :
    account' = account ∧ now.timestamp ≤ minted.timestamp + sessionTtlSecs + leeway := by
  obtain ⟨token, claims, htoken, hverify, hacc⟩ := exists_of_ownerSession h
  obtain rfl := Except.ok.inj (hbearer.symm.trans htoken)
  rw [verifyOwnerSession_mintOwnerSession] at hverify
  split_ifs at hverify with intime
  obtain rfl := Except.ok.inj hverify
  exact ⟨Option.some.inj (hacc.symm.trans (crates.parseStr_text _ haccount)), intime⟩

end Verify

/-! ## Tokens that are easy to compute -/

section PlainTokens

open PrefixCode

/-- The value of a hexadecimal digit. -/
def hexValue (c : Char) : ℕ := if c.isDigit then c.toNat - 48 else c.toNat - 87

/-- The number that hexadecimal digits go on with. -/
def readHex (start : ℕ) (chars : List Char) : ℕ :=
  chars.foldl (fun n c => if c = '-' then n else 16 * n + hexValue c) start

theorem readHex_append (start : ℕ) (chars more : List Char) :
    readHex start (chars ++ more) = readHex (readHex start chars) more :=
  List.foldl_append ..

theorem readHex_digitChar {d : ℕ} (h : d < 16) (start : ℕ) :
    readHex start [Nat.digitChar d] = 16 * start + d := by
  interval_cases d <;> rfl

/-- A number is read back from its hexadecimal digits. -/
theorem readHex_toDigits (n start : ℕ) :
    readHex start (Nat.toDigits 16 n) = 16 ^ (Nat.toDigits 16 n).length * start + n := by
  induction n using Nat.strong_induction_on with
  | h n ih =>
      rw [Nat.toDigits_eq_if (by decide)]
      split_ifs with hn
      · simpa using readHex_digitChar hn start
      · rw [readHex_append, ih (n / 16) (by omega), readHex_digitChar (by omega),
          List.length_append, List.length_singleton, pow_succ]
        have := Nat.div_add_mod n 16
        ring_nf
        ring_nf at this
        omega

/-- And with zeros in front of them. -/
theorem readHex_hexPadded {width n : ℕ} (h : n < 16 ^ width) (hwidth : 0 < width) (start : ℕ) :
    readHex start (hexPadded width n).toList = 16 ^ width * start + n := by
  have hzeros : ∀ (k start : ℕ), readHex start (List.replicate k '0') = 16 ^ k * start := by
    intro k
    induction k with
    | zero => simp [readHex]
    | succ k ih =>
        intro start
        rw [List.replicate_succ', readHex_append, ih]
        change 16 * (16 ^ k * start) + 0 = _
        ring
  have hlength : (Nat.toDigits 16 n).length ≤ width :=
    (Nat.length_toDigits_le_iff (by decide) hwidth).mpr h
  rw [toList_hexPadded, readHex_append, hzeros, readHex_toDigits, ← mul_assoc, ← pow_add,
    Nat.add_sub_cancel' hlength]

/-- **A UUID is read back** from its text. -/
theorem readHex_text {u : Uuid} (h : u < 2 ^ 128) : readHex 0 (Uuid.text u).toList = u := by
  have hdash : ∀ (start : ℕ) (chars : List Char),
      readHex start ('-' :: chars) = readHex start chars := fun _ _ => rfl
  have htext : (Uuid.text u).toList = (hexPadded 8 (u / 2 ^ 96 % 2 ^ 32)).toList ++
      '-' :: ((hexPadded 4 (u / 2 ^ 80 % 2 ^ 16)).toList ++
      '-' :: ((hexPadded 4 (u / 2 ^ 64 % 2 ^ 16)).toList ++
      '-' :: ((hexPadded 4 (u / 2 ^ 48 % 2 ^ 16)).toList ++
      '-' :: (hexPadded 12 (u % 2 ^ 48)).toList))) := by
    simp [Uuid.text, String.intercalate_cons_cons]
  rw [htext]
  simp only [readHex_append, hdash]
  rw [readHex_hexPadded (by omega) (by decide), readHex_hexPadded (by omega) (by decide),
    readHex_hexPadded (by omega) (by decide), readHex_hexPadded (by omega) (by decide),
    readHex_hexPadded (by omega) (by decide)]
  -- the fields are the digits of one number
  have hshift : ∀ k, u / 2 ^ (k + 16) = u / 2 ^ k / 2 ^ 16 := fun k => by
    rw [Nat.div_div_eq_div_mul, ← pow_add]
  have hfirst : u / 2 ^ 96 % 2 ^ 32 = u / 2 ^ 96 := by
    refine Nat.mod_eq_of_lt ((Nat.div_lt_iff_lt_mul (by positivity)).mpr ?_)
    rwa [← pow_add]
  have h₁ := Nat.div_add_mod (u / 2 ^ 80) (2 ^ 16)
  have h₂ := Nat.div_add_mod (u / 2 ^ 64) (2 ^ 16)
  have h₃ := Nat.div_add_mod (u / 2 ^ 48) (2 ^ 16)
  have h₄ := Nat.div_add_mod u (2 ^ 48)
  rw [← hshift] at h₁ h₂ h₃
  rw [hfirst]
  linarith

/-- `Uuid::parse_str`, of a hyphenated text in lower case. -/
def parseHyphenated (text : String) : Option Uuid :=
  let u := readHex 0 text.toList
  if Uuid.text u = text then some u else none

theorem parseHyphenated_text {u : Uuid} (h : u < 2 ^ 128) :
    parseHyphenated (Uuid.text u) = some u := by
  simp only [parseHyphenated, readHex_text h, if_true]

/-- A letter for each byte. -/
def letter (b : UInt8) : Char := Char.ofNat (b.toNat + 97)

theorem toNat_letter (b : UInt8) : (letter b).toNat = b.toNat + 97 := by
  have hb := b.toNat_lt
  rw [letter, Char.ofNat, dif_pos (.inl (by omega))]
  rfl

/-- A code for payloads. -/
def payloadCode : Code TokenPayload :=
  (pair (option string) (pair (option string) (pair (option string)
    (pair (option nat) (option string))))).comap
    (fun p => (p.sub, p.acc, p.role, p.exp, p.typ)) fun p q h => by
      cases p
      cases q
      simpa using h

/-- The tokens of these secrets and objects are numbered, all others are written out. Nobody
is kept from making one, which the laws do not ask for. -/
noncomputable def plainTokens (tokens : List (Bytes × TokenPayload)) : TokenCrates where
  encode secret payload := String.ofList
    ((writeTable (pair (list byte) payloadCode) tokens (secret, payload)).map letter)
  decode secret token :=
    match readTable (pair (list byte) payloadCode) tokens
      (token.toList.map fun c => UInt8.ofNat (c.toNat - 97)) with
    | some (secret', payload) => if secret' = secret then some payload else none
    | none => none
  parseStr := parseHyphenated
  decode_encode secret payload := by
    have hbytes : ∀ bytes : Bytes,
        (bytes.map letter).map (fun c => UInt8.ofNat (c.toNat - 97)) = bytes := by
      intro bytes
      rw [List.map_map]
      refine (List.map_congr_left fun b _ => ?_).trans (List.map_id _)
      simp [toNat_letter]
    simp only [String.toList_ofList, hbytes, readTable_writeTable, if_true]
  encode_visible secret payload c hc := by
    rw [String.toList_ofList] at hc
    obtain ⟨b, -, rfl⟩ := List.mem_map.mp hc
    have hlow : ∀ c : Char, c.toNat < 97 → letter b ≠ c := by
      rintro c hc rfl
      rw [toNat_letter] at hc
      omega
    exact ⟨hlow ' ' (by decide), hlow '\t' (by decide)⟩
  parseStr_text u h := parseHyphenated_text h

end PlainTokens

end Savr
