import Savr.Core.Types
import Savr.Lib.Framing

/-!
# IPC framing

`savr-core/src/ipc.rs`: a message travels as the little-endian `u32` length of its JSON
body and the body.  `encodeFrame` writes one frame, `readFrame` reads one off a stream
and `readFrames` is the loop of a connection, which reads until the peer is gone.

## Main results

* `readFrames_take` — what the loop reads off a stream cut anywhere.
* `cutExact_iff` — the loop tells a cut from a clean end except where the cut falls
  one to three bytes into a header.

## Design notes

`serde_json` is third-party code.  `Json` is what the framing relies on: what was
written for a message reads back as that message, and nothing is read off an empty body.
A stream is the bytes the peer has yet to send before it closes its end, so that
`read_exact` meets the end of the file where they run out.
-/

namespace Savr

open Framing

/-- `std::io::Error`, as far as the framing tells errors apart. -/
inductive IpcError
  | other (text : String)
  | unexpectedEof
  | json
  deriving DecidableEq, Repr

/-- `serde_json` at one message type. -/
structure Json (α : Type) where
  toVec : α → Option Bytes
  fromSlice : Bytes → Option α
  /-- The text ends too early, which becomes `UnexpectedEof` as an I/O error. -/
  incomplete : Bytes → Bool
  empty : fromSlice [] = none ∧ incomplete [] = true
  lossless : ∀ {msg body}, toVec msg = some body → fromSlice body = some msg

/-- `MAX_FRAME`. -/
def maxFrame : ℕ := 32 * 1024 * 1024

theorem maxFrame_lt : maxFrame < 256 ^ 4 := by decide

variable {α : Type} (json : Json α)

/-- `encode_frame`: a body over the limit has no frame. -/
def encodeFrame (msg : α) : Except IpcError Bytes :=
  (json.toVec msg).elim (.error .json) fun body =>
    -- `u32::try_from`, then the limit.
    if 2 ^ 32 ≤ body.length then .error (.other "frame too large")
    else if maxFrame < body.length then .error (.other "frame too large")
    else .ok (leBytes 4 body.length ++ body)

/-- `AsyncReadExt::read_exact` into a buffer of `n` bytes: the result, and the stream after
it.  A stream that is too short is read to its end. -/
def readExact (n : ℕ) (stream : Bytes) : Except IpcError Bytes × Bytes :=
  if n ≤ stream.length then (.ok (stream.take n), stream.drop n)
  else (.error .unexpectedEof, [])

/-- The part of `read_frame` after the header. A length above the bound is refused before
anything of the body is read or allocated. -/
def readBody (len : ℕ) (stream : Bytes) : Except IpcError (Option α) × Bytes :=
  if maxFrame < len then (.error (.other "frame exceeds MAX_FRAME"), stream)
  else
    match readExact len stream with
    | (.error e, rest) => (.error e, rest)
    | (.ok body, rest) =>
        match json.fromSlice body with
        | none => (.error (if json.incomplete body then .unexpectedEof else .json), rest)
        | some msg => (.ok (some msg), rest)

/-- `read_frame`: the next message, or `none` where the peer has closed its end. -/
def readFrame (stream : Bytes) : Except IpcError (Option α) × Bytes :=
  match readExact 4 stream with
  -- Any end of the file within the header counts as the clean one.
  | (.error .unexpectedEof, rest) => (.ok none, rest)
  | (.error e, rest) => (.error e, rest)
  | (.ok lenBuf, rest) => readBody json (leValue lenBuf) rest

/-! ## One frame -/

theorem readExact_append (xs rest : Bytes) :
    readExact xs.length (xs ++ rest) = (.ok xs, rest) := by
  rw [readExact, if_pos (by simp), List.take_left, List.drop_left]

theorem readExact_of_lt {n : ℕ} {stream : Bytes} (h : stream.length < n) :
    readExact n stream = (.error .unexpectedEof, []) := by
  rw [readExact, if_neg (by omega)]

/-- A stream shorter than a header reads as a clean end. -/
theorem readFrame_of_lt {stream : Bytes} (h : stream.length < 4) :
    readFrame json stream = (.ok none, []) := by
  rw [readFrame, readExact_of_lt h]

/-- Behind a complete header the frame is read by its body. -/
theorem readFrame_header {len : ℕ} (hlen : len < 256 ^ 4) (rest : Bytes) :
    readFrame json (leBytes 4 len ++ rest) = readBody json len rest := by
  have hread : readExact 4 (leBytes 4 len ++ rest) = (.ok (leBytes 4 len), rest) := by
    have := readExact_append (leBytes 4 len) rest
    rwa [length_leBytes] at this
  rw [readFrame, hread]
  dsimp only
  rw [leValue_leBytes 4 len hlen]

/-- A body without a byte in it is an early end of the file. -/
theorem readFrame_empty (rest : Bytes) :
    readFrame json (leBytes 4 0 ++ rest) = (.error .unexpectedEof, rest) := by
  have hread : readExact 0 rest = (.ok [], rest) := readExact_append [] rest
  rw [readFrame_header json (by decide), readBody, if_neg (by decide), hread]
  dsimp only
  rw [json.empty.1, json.empty.2]
  rfl

/-- What `encode_frame` accepts, and what it writes. -/
theorem encodeFrame_eq_ok_iff {msg : α} {frame : Bytes} :
    encodeFrame json msg = .ok frame ↔
      ∃ body, json.toVec msg = some body ∧ body.length ≤ maxFrame ∧
        frame = leBytes 4 body.length ++ body := by
  have hlimit := maxFrame_lt
  rw [encodeFrame]
  cases hbody : json.toVec msg with
  | none => simp
  | some body =>
      simp only [Option.elim_some, Option.some.injEq]
      split_ifs with hwide hlarge
      · constructor
        · intro h
          cases h
        · rintro ⟨_, rfl, hle, -⟩
          omega
      · constructor
        · intro h
          cases h
        · rintro ⟨_, rfl, hle, -⟩
          omega
      · constructor
        · intro h
          cases h
          exact ⟨body, rfl, by omega, rfl⟩
        · rintro ⟨_, rfl, -, rfl⟩
          rfl

/-- A frame is read back, and the stream stands right behind it. -/
theorem readFrame_append {msg : α} {frame : Bytes} (h : encodeFrame json msg = .ok frame)
    (rest : Bytes) : readFrame json (frame ++ rest) = (.ok (some msg), rest) := by
  obtain ⟨body, hbody, hle, rfl⟩ := (encodeFrame_eq_ok_iff json).mp h
  have hlimit := maxFrame_lt
  rw [List.append_assoc, readFrame_header json (by omega), readBody, if_neg (by omega),
    readExact_append]
  dsimp only
  rw [json.lossless hbody]

/-- A frame cut within its body is an error. -/
theorem readFrame_take {msg : α} {frame : Bytes} (h : encodeFrame json msg = .ok frame) {k : ℕ}
    (hheader : 4 ≤ k) (hk : k < frame.length) :
    readFrame json (frame.take k) = (.error .unexpectedEof, []) := by
  obtain ⟨body, -, hle, rfl⟩ := (encodeFrame_eq_ok_iff json).mp h
  have hlimit := maxFrame_lt
  have hcut : (leBytes 4 body.length ++ body).take k
      = leBytes 4 body.length ++ body.take (k - 4) := by
    rw [List.take_append, length_leBytes, List.take_of_length_le (by simpa using hheader)]
  rw [List.length_append, length_leBytes] at hk
  rw [hcut, readFrame_header json (by omega), readBody, if_neg (by omega),
    readExact_of_lt (by rw [List.length_take]; omega)]

theorem length_of_encodeFrame {msg : α} {frame : Bytes} (h : encodeFrame json msg = .ok frame) :
    4 ≤ frame.length := by
  obtain ⟨body, -, -, rfl⟩ := (encodeFrame_eq_ok_iff json).mp h
  rw [List.length_append, length_leBytes]
  omega

/-! ## The read loop -/

/-- How a read loop ends. -/
inductive Ending
  /-- `read_frame` answered `Ok(None)`. -/
  | clean
  | failed (e : IpcError)
  deriving DecidableEq, Repr

theorem length_snd_readExact_le (n : ℕ) (stream : Bytes) :
    (readExact n stream).2.length ≤ stream.length - n := by
  rw [readExact]
  split_ifs <;> simp

/-- Reading a body only takes bytes off the stream. -/
theorem length_snd_readBody_le (len : ℕ) (stream : Bytes) :
    (readBody json len stream).2.length ≤ stream.length := by
  have hle := length_snd_readExact_le len stream
  rw [readBody]
  split_ifs with hlarge
  · exact le_rfl
  · rcases hread : readExact len stream with ⟨_ | body, rest⟩ <;> rw [hread] at hle <;>
      dsimp only at hle ⊢
    · omega
    · cases json.fromSlice body <;> dsimp only <;> omega

/-- A message takes at least its header off the stream. -/
theorem length_lt_of_readFrame {stream rest : Bytes} {msg : α}
    (h : readFrame json stream = (.ok (some msg), rest)) : rest.length < stream.length := by
  by_cases hshort : stream.length < 4
  · rw [readFrame_of_lt json hshort] at h
    cases h
  · have hsplit : readExact 4 stream = (.ok (stream.take 4), stream.drop 4) :=
      if_pos (by omega)
    rw [readFrame, hsplit] at h
    dsimp only at h
    have hle := length_snd_readBody_le json (leValue (stream.take 4)) (stream.drop 4)
    rw [h, List.length_drop] at hle
    dsimp only at hle
    omega

/-- `while let Some(msg) = read_frame(..)?`: the messages, and what ended the loop. It ends,
since each frame takes its header off the stream. -/
def readFrames (stream : Bytes) : List α × Ending :=
  match hread : readFrame json stream with
  | (.error e, _) => ([], .failed e)
  | (.ok none, _) => ([], .clean)
  | (.ok (some msg), rest) =>
      have := length_lt_of_readFrame json hread
      let later := readFrames rest
      (msg :: later.1, later.2)
termination_by stream.length

theorem readFrames_of_none {stream rest : Bytes}
    (h : readFrame json stream = (.ok none, rest)) : readFrames json stream = ([], .clean) := by
  rw [readFrames]
  split <;> simp_all

theorem readFrames_of_error {stream rest : Bytes} {e : IpcError}
    (h : readFrame json stream = (.error e, rest)) :
    readFrames json stream = ([], .failed e) := by
  rw [readFrames]
  split <;> simp_all

theorem readFrames_of_some {stream rest : Bytes} {msg : α}
    (h : readFrame json stream = (.ok (some msg), rest)) :
    readFrames json stream
      = (msg :: (readFrames json rest).1, (readFrames json rest).2) := by
  rw [readFrames]
  split <;> simp_all

/-- The frames of a list of messages, each accepted by `encode_frame`. -/
def Framed (msgs : List α) (frames : List Bytes) : Prop :=
  List.Forall₂ (fun msg frame => encodeFrame json msg = .ok frame) msgs frames

/-- The loop reads the complete frames of a cut stream, and takes what trails for a clean
end as long as it is shorter than a header. -/
theorem readFrames_take {msgs : List α} {frames : List Bytes} (h : Framed json msgs frames)
    (k : ℕ) :
    readFrames json (frames.flatten.take k)
      = (msgs.take (whole frames k),
          if trailing frames k < 4 then .clean else .failed .unexpectedEof) := by
  induction h generalizing k with
  | nil =>
      rw [List.flatten_nil, List.take_nil,
        readFrames_of_none json (readFrame_of_lt json (by decide))]
      rfl
  | @cons msg frame msgs frames hframe _ ih =>
      by_cases hk : frame.length ≤ k
      · -- The frame is complete: one read takes it off the stream.
        have hcut : (frame :: frames).flatten.take k
            = frame ++ frames.flatten.take (k - frame.length) := by
          rw [List.flatten_cons, List.take_append, List.take_of_length_le hk]
        rw [hcut, readFrames_of_some json (readFrame_append json hframe _), ih, whole,
          if_pos hk, trailing, if_pos hk, List.take_succ_cons]
      · -- The cut lies within this frame, in its header or in its body.
        have hcut : (frame :: frames).flatten.take k = frame.take k := by
          rw [List.flatten_cons, List.take_append_of_le_length (by omega)]
        rw [hcut, whole, if_neg hk, trailing, if_neg hk, List.take_zero]
        by_cases hheader : k < 4
        · have hshort : (frame.take k).length < 4 := by
            rw [List.length_take]
            omega
          rw [if_pos hheader, readFrames_of_none json (readFrame_of_lt json hshort)]
        · rw [if_neg hheader,
            readFrames_of_error json (readFrame_take json hframe (by omega) (by omega))]

/-- Frames that were written one after the other are read one after the other, and the stream
ends cleanly behind them. -/
theorem readFrames_flatten {msgs : List α} {frames : List Bytes} (h : Framed json msgs frames) :
    readFrames json frames.flatten = (msgs, .clean) := by
  have hlen : msgs.length = frames.length := h.length_eq
  have hread := readFrames_take json h frames.flatten.length
  have htrail : trailing frames frames.flatten.length = 0 :=
    (onBoundary_iff frames _ le_rfl).mp ⟨frames.length, by rw [List.take_length]⟩
  rwa [List.take_length, whole_flatten, ← hlen, List.take_length, htrail,
    if_pos (by decide)] at hread

/-! ## Exactness -/

/-- A stream cut after `k` bytes is read as it should be: the messages whose frames are
complete, then a clean end if the cut is between two frames and an error otherwise. -/
structure CutExact (msgs : List α) (frames : List Bytes) (k : ℕ) : Prop where
  messages : (readFrames json (frames.flatten.take k)).1 = msgs.take (whole frames k)
  clean : OnBoundary frames k → (readFrames json (frames.flatten.take k)).2 = .clean
  failed : ¬ OnBoundary frames k →
    ∃ e, (readFrames json (frames.flatten.take k)).2 = .failed e

/-- A cut is read as it should be unless it falls one to three bytes into a header. -/
theorem cutExact_iff {msgs : List α} {frames : List Bytes} (h : Framed json msgs frames)
    {k : ℕ} (hk : k ≤ frames.flatten.length) :
    CutExact json msgs frames k ↔ trailing frames k = 0 ∨ 4 ≤ trailing frames k := by
  have hread := readFrames_take json h k
  have hboundary := onBoundary_iff frames k hk
  constructor
  · intro hexact
    by_contra hheader
    have hfailed := hexact.failed (by rw [hboundary]; omega)
    rw [hread, if_pos (by omega)] at hfailed
    obtain ⟨_, hclean⟩ := hfailed
    cases hclean
  · intro hcond
    refine ⟨by rw [hread], ?_, ?_⟩
    · intro hon
      rw [hboundary] at hon
      rw [hread, if_pos (by omega)]
    · intro hoff
      rw [hboundary] at hoff
      rw [hread, if_neg (by omega)]
      exact ⟨_, rfl⟩

/-- `read_frame` refuses the length of a header on its own. -/
def RejectsLength (len : ℕ) : Prop :=
  ∀ rest, (readFrame json (leBytes 4 len ++ rest)).1
    = .error (.other "frame exceeds MAX_FRAME")

/-- `read_frame` refuses exactly the lengths over the limit. -/
theorem rejectsLength_iff {len : ℕ} (hlen : len < 256 ^ 4) :
    RejectsLength json len ↔ maxFrame < len := by
  constructor
  · intro hreject
    by_contra hle
    have hfirst := hreject []
    by_cases hempty : len = 0
    · subst hempty
      rw [readFrame_empty] at hfirst
      cases hfirst
    · rw [readFrame_header json hlen, readBody, if_neg hle,
        readExact_of_lt (Nat.pos_of_ne_zero hempty)] at hfirst
      cases hfirst
  · intro hlarge rest
    rw [readFrame_header json hlen, readBody, if_pos hlarge]

/-- `encode_frame` rejects a body exactly when its length has no header or `read_frame`
refuses the header it has. -/
theorem encodeFrame_error_iff {msg : α} {body : Bytes} (hbody : json.toVec msg = some body) :
    (∃ e, encodeFrame json msg = .error e) ↔
      256 ^ 4 ≤ body.length ∨ RejectsLength json body.length := by
  have hlimit := maxFrame_lt
  have herror : (∃ e, encodeFrame json msg = .error e) ↔ maxFrame < body.length := by
    rw [encodeFrame, hbody, Option.elim_some]
    split_ifs with hwide hlarge <;> simp <;> omega
  rw [herror]
  by_cases hwide : 256 ^ 4 ≤ body.length
  · exact iff_of_true (by omega) (.inl hwide)
  · rw [rejectsLength_iff json (by omega)]
    omega

/-- Framing is exact but for cuts within a header.  Every stream is read back in full, a cut
stream as it should be exactly when the cut does not fall one to three bytes into a header,
and a body is refused on one side exactly when it is on the other. -/
theorem framing_exact_iff {msgs : List α} {frames : List Bytes} (h : Framed json msgs frames) :
    readFrames json frames.flatten = (msgs, .clean) ∧
    (∀ k < frames.flatten.length,
      CutExact json msgs frames k ↔ trailing frames k = 0 ∨ 4 ≤ trailing frames k) ∧
    (∀ msg body, json.toVec msg = some body →
      ((∃ e, encodeFrame json msg = .error e) ↔
        256 ^ 4 ≤ body.length ∨ RejectsLength json body.length)) :=
  ⟨readFrames_flatten json h, fun _ hk => cutExact_iff json h hk.le,
    fun _ _ hbody => encodeFrame_error_iff json hbody⟩

section Example

/-- `serde_json` at `bool`: the two words, and which of their beginnings are incomplete. It
is small enough to run examples with. -/
def jsonBool : Json Bool where
  toVec b := some (if b then [116, 114, 117, 101] else [102, 97, 108, 115, 101])
  fromSlice body :=
    if body = [116, 114, 117, 101] then some true
    else if body = [102, 97, 108, 115, 101] then some false
    else none
  incomplete body := body <+: [116, 114, 117, 101] ∨ body <+: [102, 97, 108, 115, 101]
  empty := ⟨rfl, rfl⟩
  lossless {msg body} h := by
    cases msg <;> cases h <;> rfl

/-- The frames of `true` and `false`. -/
def boolFrames : List Bytes :=
  [[4, 0, 0, 0, 116, 114, 117, 101], [5, 0, 0, 0, 102, 97, 108, 115, 101]]

theorem framed_boolFrames : Framed jsonBool [true, false] boolFrames :=
  .cons rfl (.cons rfl .nil)

theorem framing_exact_iff_bool :
    Framed jsonBool [true, false] boolFrames ∧
    readFrames jsonBool boolFrames.flatten = ([true, false], .clean) ∧
    CutExact jsonBool [true, false] boolFrames 8 ∧ CutExact jsonBool [true, false] boolFrames 12 :=
  ⟨framed_boolFrames, (framing_exact_iff jsonBool framed_boolFrames).1,
    ((framing_exact_iff jsonBool framed_boolFrames).2.1 8 (by decide)).mpr (.inl (by decide)),
    ((framing_exact_iff jsonBool framed_boolFrames).2.1 12 (by decide)).mpr (.inr (by decide))⟩

/-- Two bytes into the second header the loop reports a clean end. -/
theorem cut_in_header_not_exact :
    Framed jsonBool [true, false] boolFrames ∧ 10 < boolFrames.flatten.length ∧
    (readFrames jsonBool (boolFrames.flatten.take 10)).2 = .clean ∧
    ¬ CutExact jsonBool [true, false] boolFrames 10 := by
  refine ⟨framed_boolFrames, by decide, ?_, ?_⟩
  · rw [readFrames_take jsonBool framed_boolFrames]
    decide
  · rw [cutExact_iff jsonBool framed_boolFrames (by decide)]
    decide

end Example

end Savr
