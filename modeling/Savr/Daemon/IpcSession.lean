import Savr.Daemon.Messages
import Savr.Lib.Utf8

/-!
# A connection between the app and the daemon

`serve_connection` of `savr-daemon/src/ipc.rs` at one end and `request` of
`savr-app/src-tauri/src/ipc_client.rs` at the other.  Four tasks run at once: the app writes its
request and reads frames; the request loop of the daemon answers; a task forwards the events of
the engine; and one task writes what the other two put into a bounded channel.  Every socket
transfer takes some of the bytes, and the daemon may be killed at any time.

## Main results

* `IpcConn.Sound.step` — every byte that has been written, and every answer, is accounted for.
* `request_answered` — `request` returns the engine's answer to it, and the engine is asked once.
* `request_completes` — unless more and more events are published, it returns.

## Design notes

`read_exact` asks for no byte beyond the frame it reads: `wants` is what it waits for.  The
daemon's side of the socket is closed when both its halves have been dropped.
-/

namespace Savr

namespace Ipc

open Framing LabelledRun

/-- `OUT_BUFFER`. -/
def outBuffer : ℕ := 64

/-- `CmdError`. -/
inductive CmdError
  | daemonUnreachable (message : String)
  | daemon (message : String)
  | protocol (message : String)
  | io (e : IpcError)
  deriving DecidableEq, Repr

/-- How many bytes `read_frame` waits for before it goes on. -/
def wants (buf : Bytes) : ℕ :=
  if buf.length < 4 then 4 - buf.length
  else if maxFrame < leValue (buf.take 4) then 0
  else 4 + leValue (buf.take 4) - buf.length

/-! ## The parties -/

/-- Where `request` of the app is. -/
inductive ClientPhase
  /-- `write_frame`: these bytes are left. -/
  | writing (rest : Bytes)
  /-- `read_frame`: these bytes have arrived. -/
  | reading (buf : Bytes)
  | done (result : Except CmdError DaemonMsg)
  deriving DecidableEq

/-- The request loop. -/
inductive ServePhase
  | reading (buf : Bytes)
  | handling (req : GuiRequest)
  /-- Putting a reply into the channel; after the last one the loop is left. -/
  | replying (msg : DaemonMsg) (last : Bool)
  | ended
  deriving DecidableEq

/-- The task that forwards events. -/
inductive ForwardPhase
  | waiting
  | sending (event : DetectionEvent)
  | ended
  deriving DecidableEq

/-- The task that writes to the socket. -/
inductive WriterPhase
  | waiting
  | writing (rest : Bytes)
  | ended
  deriving DecidableEq

/-- A connection: the app that asks, the tasks of the daemon that serve it, and the bytes and
messages between them. What has been answered is kept for the statements. -/
structure IpcConn where
  client : ClientPhase
  /-- Bytes on their way to the daemon. -/
  up : Bytes
  serve : ServePhase
  forward : ForwardPhase
  /-- The channel `out_tx`, `out_rx`. -/
  out : List DaemonMsg
  writer : WriterPhase
  /-- Bytes on their way to the app. -/
  down : Bytes
  /-- The shutdown channel of the daemon has been tripped. -/
  tripped : Bool
  /-- The requests that have been read, with what the daemon answers them. -/
  handled : List (GuiRequest × DaemonMsg)
  /-- The process of the daemon has been killed. -/
  killed : Bool

/-- What happens next on a connection; a number is how many bytes go over. Sockets split
frames anywhere, and each task may be the next to move. -/
inductive IpcEvent
  | clientWrite (n : ℕ)
  /-- The write fails. -/
  | clientBroken
  | clientReceive (n : ℕ)
  | clientFrame
  | clientEof
  | serveReceive (n : ℕ)
  | serveFrame
  | serveEof
  | handle (ops : Operations)
  | serveSend
  | serveSendFailed
  /-- The engine publishes an event. -/
  | publish (event : DetectionEvent)
  | forwardSend
  | forwardSendFailed
  | forwardAbort
  | writerTake
  | writerWrite (n : ℕ)
  | writerFailed
  | writerClose
  | kill

/-- Everything but new events of the engine and the end of the process. -/
def IpcEvent.Internal : IpcEvent → Prop
  | .publish _ | .kill => False
  | _ => True

section Parties

variable (reqs : Json GuiRequest) (msgs : Json DaemonMsg)

/-- The text of an error. -/
def errorText : IpcError → String
  | .other text => text
  | .unexpectedEof => "unexpected end of file"
  | .json => "invalid JSON"

/-- The message that the writer task writes for one that it takes out of the channel. -/
def wire (msg : DaemonMsg) : DaemonMsg :=
  match encodeFrame msgs msg with
  | .ok _ => msg
  | .error e => .error ("daemon could not encode reply: " ++ errorText e)

/-- The task writes a frame, or ends if even the error cannot be encoded. -/
def onMessage (msg : DaemonMsg) : WriterPhase :=
  match encodeFrame msgs (wire msgs msg) with
  | .ok frame => .writing frame
  | .error _ => .ended

/-- `request`, when it has what it reads: an event is skipped and the next frame is read, and
anything else is its result. -/
def onFrame (buf : Bytes) : ClientPhase :=
  match (readFrame msgs buf).1 with
  | .error e => .done (.error (.io e))
  | .ok (some (.event _)) => .reading []
  | .ok (some (.error message)) => .done (.error (.daemon message))
  | .ok (some msg) => .done (.ok msg)
  | .ok none =>
      .done (.error (.daemonUnreachable "daemon closed the connection without responding"))

/-- The request loop, when it has what it reads. -/
def onRequest (buf : Bytes) (handled : List (GuiRequest × DaemonMsg)) :
    ServePhase × List (GuiRequest × DaemonMsg) :=
  match (readFrame reqs buf).1 with
  | .error _ => (.ended, handled)
  | .ok none => (.ended, handled)
  | .ok (some .shutdown) => (.replying .ok true, handled ++ [(.shutdown, .ok)])
  | .ok (some req) => (.handling req, handled)

end Parties

namespace IpcConn

/-- Nothing holds the daemon's end of the socket any more. -/
def Closed (w : IpcConn) : Prop := w.serve = .ended ∧ w.writer = .ended

instance (w : IpcConn) : Decidable w.Closed := inferInstanceAs (Decidable (_ ∧ _))

/-- `connect`, and the beginning of `write_frame`. A request that has no frame fails before a
byte is sent. -/
def opened (reqs : Json GuiRequest) (req : GuiRequest) : IpcConn where
  client :=
    match encodeFrame reqs req with
    | .ok frame => .writing frame
    | .error e => .done (.error (.io e))
  up := []
  serve := .reading []
  forward := .waiting
  out := []
  writer := .waiting
  down := []
  tripped := false
  handled := []
  killed := false

end IpcConn

/-- One step of one of the tasks; `cap` is how many bytes a socket holds. A task that waits
for bytes, for room or for a message has no step. -/
inductive IpcStep (reqs : Json GuiRequest) (msgs : Json DaemonMsg) (cap : ℕ) (w : IpcConn) :
    IpcEvent → IpcConn → Prop
  | clientWrite {n : ℕ} {rest : Bytes} (client : w.client = .writing rest) (some : 0 < n)
      (room : w.up.length + n ≤ cap) (more : n < rest.length) :
      IpcStep reqs msgs cap w (.clientWrite n)
        { w with client := .writing (rest.drop n), up := w.up ++ rest.take n }
  | clientWritten {rest : Bytes} (client : w.client = .writing rest)
      (room : w.up.length + rest.length ≤ cap) :
      IpcStep reqs msgs cap w (.clientWrite rest.length)
        { w with client := .reading [], up := w.up ++ rest }
  | clientBroken {rest : Bytes} (client : w.client = .writing rest) (closed : w.Closed) :
      IpcStep reqs msgs cap w .clientBroken
        { w with client := .done (.error (.io (.other "broken pipe"))) }
  | clientReceive {n : ℕ} {buf : Bytes} (client : w.client = .reading buf) (some : 0 < n)
      (asked : n ≤ wants buf) (there : n ≤ w.down.length) :
      IpcStep reqs msgs cap w (.clientReceive n)
        { w with client := .reading (buf ++ w.down.take n), down := w.down.drop n }
  | clientFrame {buf : Bytes} (client : w.client = .reading buf) (whole : wants buf = 0) :
      IpcStep reqs msgs cap w .clientFrame { w with client := onFrame msgs buf }
  | clientEof {buf : Bytes} (client : w.client = .reading buf) (cut : 0 < wants buf)
      (closed : w.Closed) (down : w.down = []) :
      IpcStep reqs msgs cap w .clientEof { w with client := onFrame msgs buf }
  | serveReceive {n : ℕ} {buf : Bytes} (serve : w.serve = .reading buf) (some : 0 < n)
      (asked : n ≤ wants buf) (there : n ≤ w.up.length) :
      IpcStep reqs msgs cap w (.serveReceive n)
        { w with serve := .reading (buf ++ w.up.take n), up := w.up.drop n }
  | serveFrame {buf : Bytes} (serve : w.serve = .reading buf) (whole : wants buf = 0) :
      IpcStep reqs msgs cap w .serveFrame
        { w with
          serve := (onRequest reqs buf w.handled).1
          handled := (onRequest reqs buf w.handled).2 }
  | serveEof {buf : Bytes} (serve : w.serve = .reading buf) (cut : 0 < wants buf)
      (gone : ∃ result, w.client = .done result) (up : w.up = []) :
      IpcStep reqs msgs cap w .serveEof { w with serve := .ended }
  | handle {req : GuiRequest} (serve : w.serve = .handling req) (ops : Operations) :
      IpcStep reqs msgs cap w (.handle ops)
        { w with
          serve := .replying (handleRequest ops req) false
          handled := w.handled ++ [(req, handleRequest ops req)] }
  | serveSend {msg : DaemonMsg} {last : Bool} (serve : w.serve = .replying msg last)
      (room : w.out.length < outBuffer) (writer : w.writer ≠ .ended) :
      IpcStep reqs msgs cap w .serveSend
        { w with
          serve := if last then .ended else .reading []
          out := w.out ++ [msg]
          tripped := w.tripped || last }
  | serveSendFailed {msg : DaemonMsg} {last : Bool} (serve : w.serve = .replying msg last)
      (writer : w.writer = .ended) :
      IpcStep reqs msgs cap w .serveSendFailed
        { w with serve := .ended, tripped := w.tripped || last }
  -- The fields of an event are short, and make a frame.
  | publish {event : DetectionEvent} {frame : Bytes} (forward : w.forward = .waiting)
      (short : encodeFrame msgs (.event event) = .ok frame) :
      IpcStep reqs msgs cap w (.publish event) { w with forward := .sending event }
  | forwardSend {event : DetectionEvent} (forward : w.forward = .sending event)
      (room : w.out.length < outBuffer) (writer : w.writer ≠ .ended) :
      IpcStep reqs msgs cap w .forwardSend
        { w with forward := .waiting, out := w.out ++ [.event event] }
  | forwardSendFailed {event : DetectionEvent} (forward : w.forward = .sending event)
      (writer : w.writer = .ended) :
      IpcStep reqs msgs cap w .forwardSendFailed { w with forward := .ended }
  | forwardAbort (serve : w.serve = .ended) (forward : w.forward ≠ .ended) :
      IpcStep reqs msgs cap w .forwardAbort { w with forward := .ended }
  | writerTake {msg : DaemonMsg} {out : List DaemonMsg} (writer : w.writer = .waiting)
      (queued : w.out = msg :: out) :
      IpcStep reqs msgs cap w .writerTake { w with writer := onMessage msgs msg, out := out }
  | writerWrite {n : ℕ} {rest : Bytes} (writer : w.writer = .writing rest) (some : 0 < n)
      (room : w.down.length + n ≤ cap) (more : n < rest.length) :
      IpcStep reqs msgs cap w (.writerWrite n)
        { w with writer := .writing (rest.drop n), down := w.down ++ rest.take n }
  | writerWritten {rest : Bytes} (writer : w.writer = .writing rest)
      (room : w.down.length + rest.length ≤ cap) :
      IpcStep reqs msgs cap w (.writerWrite rest.length)
        { w with writer := .waiting, down := w.down ++ rest }
  | writerFailed {rest : Bytes} (writer : w.writer = .writing rest)
      (gone : ∃ result, w.client = .done result) :
      IpcStep reqs msgs cap w .writerFailed { w with writer := .ended }
  | writerClose (writer : w.writer = .waiting) (out : w.out = []) (serve : w.serve = .ended)
      (forward : w.forward = .ended) :
      IpcStep reqs msgs cap w .writerClose { w with writer := .ended }
  | kill :
      IpcStep reqs msgs cap w .kill
        { w with
          serve := .ended
          forward := .ended
          out := []
          writer := .ended
          up := []
          killed := true }

/-! ## Frames -/

section Frames

variable {α : Type} {json : Json α} {msg : α} {frame buf : Bytes}

/-- What is missing of a frame is what the reader asks for, in one or two rounds. -/
theorem wants_of_start (h : encodeFrame json msg = .ok frame) (hbuf : buf <+: frame) :
    wants buf ≤ frame.length - buf.length ∧ (wants buf = 0 → buf = frame) := by
  obtain ⟨body, -, hle, rfl⟩ := (encodeFrame_eq_ok_iff json).mp h
  have hlimit := maxFrame_lt
  have hlength : buf.length ≤ (leBytes 4 body.length ++ body).length := hbuf.length_le
  rw [List.length_append, length_leBytes] at hlength ⊢
  by_cases hshort : buf.length < 4
  · rw [wants, if_pos hshort]
    exact ⟨by omega, fun h => by omega⟩
  · have hheader : buf.take 4 = leBytes 4 body.length := by
      have htake := List.prefix_iff_eq_take.mp hbuf
      rw [htake, List.take_take, min_eq_left (by omega), List.take_left' (length_leBytes ..)]
    have hvalue : leValue (buf.take 4) = body.length := by
      rw [hheader, leValue_leBytes 4 _ (by omega)]
    rw [wants, if_neg hshort, hvalue, if_neg (by omega)]
    refine ⟨le_rfl, fun hzero => hbuf.eq_of_length_le ?_⟩
    rw [List.length_append, length_leBytes]
    omega

theorem wants_frame (h : encodeFrame json msg = .ok frame) : wants frame = 0 := by
  have hle := (wants_of_start h (List.prefix_refl frame)).1
  omega

theorem readFrame_frame (h : encodeFrame json msg = .ok frame) :
    readFrame json frame = (.ok (some msg), []) := by
  have hread := readFrame_append json h []
  rwa [List.append_nil] at hread

theorem frame_ne_nil (h : encodeFrame json msg = .ok frame) : frame ≠ [] := by
  rintro rfl
  have hlength := length_of_encodeFrame json h
  simp at hlength

/-- A stream that ends where more is asked for. -/
theorem readFrame_of_cut (h : 0 < wants buf) :
    readFrame json buf = (.ok none, []) ∨ readFrame json buf = (.error .unexpectedEof, []) := by
  by_cases hshort : buf.length < 4
  · exact .inl (readFrame_of_lt json hshort)
  · have hsmall : ¬ maxFrame < leValue (buf.take 4) := by
      intro hlarge
      rw [wants, if_neg hshort, if_pos hlarge] at h
      exact absurd h (lt_irrefl 0)
    rw [wants, if_neg hshort, if_neg hsmall] at h
    right
    have hheader : readExact 4 buf = (.ok (buf.take 4), buf.drop 4) := if_pos (by omega)
    rw [readFrame, hheader]
    dsimp only
    rw [readBody, if_neg hsmall, readExact_of_lt (by rw [List.length_drop]; omega)]

end Frames

/-! ## What is accounted for -/

section Sound

/-- What is left of the request. -/
def ClientPhase.rest : ClientPhase → Bytes
  | .writing rest => rest
  | _ => []

/-- What has arrived of the next frame, if the app still waits for one. -/
def ClientPhase.heard : ClientPhase → Option Bytes
  | .writing _ => some []
  | .reading buf => some buf
  | .done _ => none

/-- The reply that is not in the channel yet. -/
def ServePhase.pending : ServePhase → List DaemonMsg
  | .replying msg _ => [msg]
  | _ => []

/-- What the writer task has yet to write. -/
def WriterPhase.rest : WriterPhase → Bytes
  | .writing rest => rest
  | _ => []

/-- The bytes of a message. -/
def frameOf {α : Type} (json : Json α) (msg : α) : Bytes := (encodeFrame json msg).toOption.getD []

/-- What `request` makes of a reply. -/
def outcome : DaemonMsg → Except CmdError DaemonMsg
  | .error message => .error (.daemon message)
  | msg => .ok msg

/-- The app has no reply, and says so. -/
def Lost : Except CmdError DaemonMsg → Prop
  | .error (.daemonUnreachable _) | .error (.io _) => True
  | _ => False

variable (reqs : Json GuiRequest) (msgs : Json DaemonMsg)

/-- The error that stands for a message that cannot be encoded has a frame. -/
def FallsBack : Prop :=
  ∀ msg e, encodeFrame msgs msg = .error e →
    ∃ frame, encodeFrame msgs (.error ("daemon could not encode reply: " ++ errorText e))
      = .ok frame

variable (req : GuiRequest)

/-- How far the request is: where the loop is, and what the app has yet to write. It is read
once, as it was written, and answered once. -/
inductive Asked (frame : Bytes) :
    ServePhase → Bytes → Bytes → List (GuiRequest × DaemonMsg) → Prop
  | arriving {buf up rest : Bytes} (bytes : buf ++ up ++ rest = frame) :
      Asked frame (.reading buf) up rest []
  | handling : Asked frame (.handling req) [] [] []
  | replying {msg : DaemonMsg} {last : Bool} (reply : Answers req msg)
      (shutdown : last = true → req = .shutdown) :
      Asked frame (.replying msg last) [] [] [(req, msg)]
  | replied {msg : DaemonMsg} (reply : Answers req msg) :
      Asked frame (.reading []) [] [] [(req, msg)]
  | left {up rest : Bytes} : Asked frame .ended up rest []
  | answered {msg : DaemonMsg} {up : Bytes} (reply : Answers req msg) :
      Asked frame .ended up [] [(req, msg)]

/-- The bytes and the replies that the app has not read: `unread` is what the writer has taken
out of the channel, and the app has read `buf` of its first frame. -/
structure Unread (w : IpcConn) (buf : Bytes) (unread : List DaemonMsg) : Prop where
  framed : ∀ msg ∈ unread, ∃ frame, encodeFrame msgs msg = .ok frame
  first : buf <+: (unread.head?.map (frameOf msgs)).getD []
  bytes : ∃ lost, buf ++ w.down ++ w.writer.rest ++ lost = (unread.map (frameOf msgs)).flatten ∧
    (w.killed = false → lost = [])
  replies : ∃ lost, (unread ++ w.out.map (wire msgs)).filter DaemonMsg.isReply
      ++ w.serve.pending.map (wire msgs) ++ lost = w.handled.map (fun call => wire msgs call.2) ∧
    (w.killed = false → lost = [])

/-- What `request` has returned. -/
def Returned (w : IpcConn) (result : Except CmdError DaemonMsg) : Prop :=
  (∃ reply, w.handled = [(req, reply)] ∧ result = outcome (wire msgs reply)) ∨
    Lost result ∧ (w.killed = true ∨ ∃ e, encodeFrame reqs req = .error e)

/-- What holds of a connection at any time, however its bytes are split. The clauses follow
the request up to the daemon and the reply down to the app. -/
structure IpcConn.Sound (w : IpcConn) : Prop where
  asked : Asked req (frameOf reqs req) w.serve w.up w.client.rest w.handled
  tripped : w.tripped = true → req = .shutdown ∧ w.handled ≠ []
  busy : ∀ rest, w.client = .writing rest → rest ≠ []
  short : ∀ event, .event event ∈ w.out ∨ w.forward = .sending event →
    ∃ frame, encodeFrame msgs (.event event) = .ok frame
  dead : w.killed = true →
    w.serve = .ended ∧ w.forward = .ended ∧ w.out = [] ∧ w.writer = .ended
  left : w.serve = .ended → w.killed = true ∨ w.client.heard = none ∨ w.handled ≠ []
  closed : w.writer = .ended →
    w.killed = true ∨ w.client.heard = none ∨ w.serve = .ended ∧ w.out = []
  unread : ∀ buf, w.client.heard = some buf → ∃ unread, Unread msgs w buf unread
  returned : ∀ result, w.client = .done result → Returned reqs msgs req w result

end Sound

section Step

variable {reqs : Json GuiRequest} {msgs : Json DaemonMsg} {req : GuiRequest} {cap : ℕ}
  {w w' : IpcConn} {ev : IpcEvent}

theorem frameOf_eq {α : Type} {json : Json α} {msg : α} {frame : Bytes}
    (h : encodeFrame json msg = .ok frame) : frameOf json msg = frame := by
  rw [frameOf, h]
  rfl

/-- What the loop does with the request when it is there. -/
theorem onRequest_frame {frame : Bytes} (h : encodeFrame reqs req = .ok frame)
    (handled : List (GuiRequest × DaemonMsg)) :
    onRequest reqs frame handled =
      if req = .shutdown then (.replying .ok true, handled ++ [(.shutdown, .ok)])
      else (.handling req, handled) := by
  rw [onRequest, readFrame_frame h]
  cases req <;> rfl

/-- The loop reads nothing but the request. -/
theorem Asked.whole {buf up rest : Bytes} {handled : List (GuiRequest × DaemonMsg)}
    (h : Asked req (frameOf reqs req) (.reading buf) up rest handled) (whole : wants buf = 0) :
    encodeFrame reqs req = .ok buf ∧ up = [] ∧ rest = [] ∧ handled = [] := by
  cases h with
  | replied => cases whole
  | arriving bytes =>
      cases hframe : encodeFrame reqs req with
      | error e =>
          rw [frameOf, hframe] at bytes
          obtain rfl : buf = [] := by
            have hnil := List.append_eq_nil_iff.mp bytes
            exact (List.append_eq_nil_iff.mp hnil.1).1
          cases whole
      | ok frame =>
          rw [frameOf_eq hframe] at bytes
          have hprefix : buf <+: frame := ⟨up ++ rest, by rw [← bytes, List.append_assoc]⟩
          obtain rfl := (wants_of_start hframe hprefix).2 whole
          rw [List.append_assoc, List.append_right_eq_self, List.append_eq_nil_iff] at bytes
          exact ⟨rfl, bytes.1, bytes.2, rfl⟩

variable {frame up rest buf : Bytes} {serve : ServePhase}
  {handled : List (GuiRequest × DaemonMsg)}

/-- The app writes more of its frame. -/
theorem Asked.write (h : Asked req frame serve up rest handled) (n : ℕ) :
    Asked req frame serve (up ++ rest.take n) (rest.drop n) handled := by
  cases h with
  | arriving bytes => exact .arriving (by simpa using bytes)
  | handling => simpa using Asked.handling
  | replying reply shutdown => simpa using Asked.replying reply shutdown
  | replied reply => simpa using Asked.replied reply
  | left => exact .left
  | answered reply => simpa using Asked.answered reply

/-- The loop reads more of the frame. -/
theorem Asked.receive (h : Asked req frame (.reading buf) up rest handled) {n : ℕ} (some : 0 < n)
    (there : n ≤ up.length) :
    Asked req frame (.reading (buf ++ up.take n)) (up.drop n) rest handled := by
  cases h with
  | arriving bytes => exact .arriving (by rwa [List.append_assoc buf, List.take_append_drop])
  | replied =>
      rw [List.length_nil] at there
      omega

/-- The loop can be left anywhere. -/
theorem Asked.leave (h : Asked req frame serve up rest handled) (up' : Bytes) :
    Asked req frame .ended up' rest handled := by
  cases h with
  | arriving | handling | left => exact .left
  | replying reply | replied reply | answered reply => exact .answered reply

theorem Asked.give_up (h : Asked req frame .ended up rest handled) :
    Asked req frame .ended up [] handled := by
  cases h with
  | left => exact .left
  | answered reply => exact .answered reply

theorem Asked.handle {r : GuiRequest} (h : Asked req frame (.handling r) up rest handled)
    (ops : Operations) :
    Asked req frame (.replying (handleRequest ops r) false) up rest
      (handled ++ [(r, handleRequest ops r)]) := by
  cases h
  exact .replying ⟨ops, rfl⟩ nofun

/-- With the reply sent, the loop reads on or ends. -/
theorem Asked.send {msg : DaemonMsg} {last : Bool}
    (h : Asked req frame (.replying msg last) up rest handled) :
    Asked req frame (if last then .ended else .reading []) up rest handled := by
  cases h with
  | replying reply =>
      cases last with
      | true => exact .answered reply
      | false => exact .replied reply

theorem Asked.handled_cases (h : Asked req frame serve up rest handled) :
    handled = [] ∨ ∃ ops, handled = [(req, handleRequest ops req)] := by
  cases h with
  | arriving | left | handling => exact .inl rfl
  | replying reply | replied reply | answered reply =>
      obtain ⟨ops, rfl⟩ := reply
      exact .inr ⟨ops, rfl⟩

/-- The whole request is with the loop. -/
theorem Asked.arrived (h : Asked req frame (.reading buf) [] [] []) : buf = frame := by
  cases h with
  | arriving bytes => simpa using bytes

/-- What is answered has been written. -/
theorem Asked.rest_of_answered (h : Asked req frame serve up rest handled)
    (answered : handled ≠ []) : rest = [] := by
  cases h with
  | arriving | left => exact absurd rfl answered
  | handling | replying | replied | answered => rfl

theorem Asked.unanswered {r : GuiRequest} (h : Asked req frame (.handling r) up rest handled) :
    handled = [] := by
  cases h
  rfl

theorem Asked.answered_ne_nil {msg : DaemonMsg} {last : Bool}
    (h : Asked req frame (.replying msg last) up rest handled) : handled ≠ [] := by
  cases h
  nofun

theorem Asked.shutdown {msg : DaemonMsg} {last : Bool}
    (h : Asked req frame (.replying msg last) up rest handled) (hlast : last = true) :
    req = .shutdown := by
  cases h with
  | replying _ shutdown => exact shutdown hlast

theorem Asked.isReply {msg : DaemonMsg} {last : Bool}
    (h : Asked req frame (.replying msg last) up rest handled) : msg.isReply = true := by
  cases h with
  | replying reply => exact reply.isReply

/-- A whole frame is the request that was sent. -/
theorem Asked.request (h : Asked req (frameOf reqs req) (.reading buf) up rest handled)
    (whole : wants buf = 0) :
    Asked req (frameOf reqs req) (onRequest reqs buf handled).1 up rest
      (onRequest reqs buf handled).2 := by
  obtain ⟨hframe, rfl, rfl, rfl⟩ := h.whole whole
  rw [onRequest_frame hframe]
  split_ifs with hshutdown
  · subst hshutdown
    exact .replying ⟨default, rfl⟩ fun _ => rfl
  · exact .handling

theorem rest_onFrame (buf : Bytes) : (onFrame msgs buf).rest = [] := by
  rw [onFrame]
  split <;> rfl

/-- The engine is asked at most once, and for the request. -/
theorem IpcConn.Sound.asked_step (h : w.Sound reqs msgs req)
    (step : IpcStep reqs msgs cap w ev w') :
    Asked req (frameOf reqs req) w'.serve w'.up w'.client.rest w'.handled := by
  have hasked := h.asked
  cases step with
  | clientWrite client =>
      rw [client] at hasked
      exact hasked.write _
  | @clientWritten rest client =>
      rw [client] at hasked
      have hwrite := hasked.write rest.length
      simpa [ClientPhase.rest] using hwrite
  | clientBroken client closed =>
      rw [closed.1] at hasked ⊢
      exact hasked.give_up
  | clientReceive client =>
      rw [client] at hasked
      exact hasked
  | clientFrame client | clientEof client =>
      rw [client] at hasked
      simp only [rest_onFrame]
      exact hasked
  | serveReceive serve some asked there =>
      rw [serve] at hasked
      exact hasked.receive some there
  | serveFrame serve whole =>
      rw [serve] at hasked
      exact hasked.request whole
  | serveEof serve =>
      exact hasked.leave _
  | handle serve ops =>
      rw [serve] at hasked
      exact hasked.handle ops
  | serveSend serve =>
      rw [serve] at hasked
      exact hasked.send
  | serveSendFailed serve => exact hasked.leave _
  | kill => exact hasked.leave _
  | publish | forwardSend | forwardSendFailed | forwardAbort | writerTake | writerWrite
  | writerWritten | writerFailed | writerClose => exact hasked

/-! ### The bytes and the replies -/

section Unread

variable {unread : List DaemonMsg} {msg : DaemonMsg}

/-- Bytes that arrive are the next ones of what is unread. -/
theorem Unread.receive (h : Unread msgs w buf unread) {n : ℕ} (asked : n ≤ wants buf)
    (there : n ≤ w.down.length) :
    Unread msgs { w with client := .reading (buf ++ w.down.take n), down := w.down.drop n }
      (buf ++ w.down.take n) unread := by
  obtain ⟨lost, hbytes, hlost⟩ := h.bytes
  refine ⟨h.framed, ?_, ⟨lost, ?_, hlost⟩, h.replies⟩
  · have hprefix : buf ++ w.down.take n <+: (unread.map (frameOf msgs)).flatten := by
      rw [← hbytes]
      refine ⟨w.down.drop n ++ w.writer.rest ++ lost, ?_⟩
      simp only [← List.append_assoc]
      rw [List.append_assoc buf, List.take_append_drop]
    cases unread with
    | nil => exact hprefix
    | cons msg unread =>
        obtain ⟨frame, hframe⟩ := h.framed msg (List.mem_cons_self ..)
        have hfirst : buf <+: frame := by simpa [frameOf_eq hframe] using h.first
        have hwants := (wants_of_start hframe hfirst).1
        have hle := hfirst.length_le
        rw [List.map_cons, List.flatten_cons, frameOf_eq hframe] at hprefix
        simp only [List.head?_cons, Option.map_some, Option.getD_some, frameOf_eq hframe]
        refine List.prefix_of_prefix_length_le hprefix (List.prefix_append ..) ?_
        rw [List.length_append, List.length_take]
        omega
  · dsimp only
    rw [List.append_assoc buf, List.take_append_drop]
    exact hbytes

/-- What the app has read is the first of the frames. -/
theorem Unread.whole (h : Unread msgs w buf unread) (whole : wants buf = 0) :
    ∃ msg rest, unread = msg :: rest ∧ encodeFrame msgs msg = .ok buf := by
  cases unread with
  | nil =>
      obtain rfl := List.prefix_nil.mp h.first
      cases whole
  | cons msg rest =>
      obtain ⟨frame, hframe⟩ := h.framed msg (List.mem_cons_self ..)
      have hfirst : buf <+: frame := by simpa [frameOf_eq hframe] using h.first
      obtain rfl := (wants_of_start hframe hfirst).2 whole
      exact ⟨msg, rest, rfl, hframe⟩

theorem onFrame_frame {frame : Bytes} (h : encodeFrame msgs msg = .ok frame) :
    onFrame msgs frame = if msg.isReply then .done (outcome msg) else .reading [] := by
  rw [onFrame, readFrame_frame h]
  cases msg <;> rfl

/-- An event is skipped. -/
theorem Unread.skip (h : Unread msgs w buf (msg :: unread))
    (hframe : encodeFrame msgs msg = .ok buf) (hevent : msg.isReply = false) :
    Unread msgs { w with client := .reading [] } [] unread := by
  obtain ⟨lost, hbytes, hlost⟩ := h.bytes
  obtain ⟨lost', hreplies, hlost'⟩ := h.replies
  refine ⟨fun m hm => h.framed m (List.mem_cons_of_mem _ hm), List.nil_prefix,
    ⟨lost, ?_, hlost⟩, ⟨lost', ?_, hlost'⟩⟩
  · rw [List.map_cons, List.flatten_cons, frameOf_eq hframe, List.append_assoc, List.append_assoc,
      List.append_cancel_left_eq] at hbytes
    simpa [List.append_assoc] using hbytes
  · rw [List.cons_append, List.filter_cons_of_neg (by simp [hevent])] at hreplies
    exact hreplies

/-- The first reply that the app reads is the answer to its request. -/
theorem Unread.answer (h : Unread msgs w buf (msg :: unread)) (hreply : msg.isReply = true)
    (hasked : Asked req frame w.serve w.up rest w.handled) :
    ∃ reply, w.handled = [(req, reply)] ∧ msg = wire msgs reply := by
  obtain ⟨lost, hreplies, -⟩ := h.replies
  rw [List.cons_append, List.filter_cons_of_pos hreply, List.cons_append, List.cons_append]
    at hreplies
  generalize w.handled = handled, w.serve = serve, w.up = up at hreplies hasked ⊢
  cases hasked with
  | arriving | handling | left => cases hreplies
  | replying | replied | answered => exact ⟨_, rfl, (List.cons.inj hreplies).1⟩

/-- When nothing is on its way any more, the app has read the answer. -/
theorem Unread.whole_of_delivered (h : Unread msgs w buf unread) (alive : w.killed = false)
    (down : w.down = []) (writer : w.writer.rest = []) (out : w.out = [])
    (pending : w.serve.pending = []) (handled : w.handled ≠ []) : wants buf = 0 := by
  obtain ⟨lost, hbytes, hlost⟩ := h.bytes
  obtain ⟨lost', hreplies, hlost'⟩ := h.replies
  obtain rfl := hlost alive
  obtain rfl := hlost' alive
  rw [down, writer, List.append_nil, List.append_nil, List.append_nil] at hbytes
  rw [out, pending, List.map_nil, List.append_nil, List.append_nil, List.append_nil] at hreplies
  cases unread with
  | nil => exact absurd (List.map_eq_nil_iff.mp hreplies.symm) handled
  | cons msg unread =>
      obtain ⟨frame, hframe⟩ := h.framed msg (List.mem_cons_self ..)
      have hfirst : buf <+: frame := by simpa [frameOf_eq hframe] using h.first
      rw [List.map_cons, List.flatten_cons, frameOf_eq hframe] at hbytes
      have hle : frame.length ≤ buf.length := by
        rw [hbytes, List.length_append]
        omega
      rw [hfirst.eq_of_length_le hle, wants_frame hframe]

theorem wire_of_encodes {frame : Bytes} (h : encodeFrame msgs msg = .ok frame) :
    wire msgs msg = msg := by
  rw [wire, h]

theorem isReply_wire (h : msg.isReply = true) : (wire msgs msg).isReply = true := by
  rw [wire]
  cases encodeFrame msgs msg with
  | ok frame => exact h
  | error e => rfl

/-- What the writer sends has a frame: the message, or the error that stands for it. -/
theorem encodes_wire (falls : FallsBack msgs) (msg : DaemonMsg) :
    ∃ frame, encodeFrame msgs (wire msgs msg) = .ok frame := by
  cases hframe : encodeFrame msgs msg with
  | ok frame => exact ⟨frame, by rw [wire_of_encodes hframe, hframe]⟩
  | error e =>
      have hwire : wire msgs msg = .error ("daemon could not encode reply: " ++ errorText e) := by
        rw [wire, hframe]
      rw [hwire]
      exact falls msg e hframe

theorem onMessage_eq {frame : Bytes} (h : encodeFrame msgs (wire msgs msg) = .ok frame) :
    onMessage msgs msg = .writing frame := by
  rw [onMessage, h]

/-- The writer task takes the next message out of the channel. -/
theorem Unread.take (h : Unread msgs w buf unread) (alive : w.killed = false)
    (writer : w.writer = .waiting) {out : List DaemonMsg} (queued : w.out = msg :: out)
    {frame : Bytes} (hframe : encodeFrame msgs (wire msgs msg) = .ok frame) :
    Unread msgs { w with writer := .writing frame, out := out } buf
      (unread ++ [wire msgs msg]) := by
  obtain ⟨lost, hbytes, hlost⟩ := h.bytes
  obtain ⟨lost', hreplies, hlost'⟩ := h.replies
  obtain rfl := hlost alive
  have hrest : w.writer.rest = [] := by rw [writer]; rfl
  rw [hrest, List.append_nil, List.append_nil] at hbytes
  refine ⟨fun m hm => ?_, ?_, ⟨[], ?_, fun _ => rfl⟩, ⟨lost', ?_, hlost'⟩⟩
  · rcases List.mem_append.mp hm with hm | hm
    · exact h.framed m hm
    · obtain rfl := List.mem_singleton.mp hm
      exact ⟨frame, hframe⟩
  · cases unread with
    | nil =>
        obtain rfl := List.prefix_nil.mp h.first
        exact List.nil_prefix
    | cons m unread => exact h.first
  · simp [← hbytes, WriterPhase.rest, frameOf_eq hframe]
  · rw [← hreplies, queued]
    simp

/-- A queued reply is behind what has not been read. -/
theorem Unread.push_reply (h : Unread msgs w buf unread) {last : Bool}
    (serve : w.serve = .replying msg last) (reply : msg.isReply = true) {serve' : ServePhase}
    (left : serve'.pending = []) (tripped : Bool) :
    Unread msgs { w with serve := serve', out := w.out ++ [msg], tripped := tripped } buf
      unread := by
  obtain ⟨lost, hreplies, hlost⟩ := h.replies
  refine ⟨h.framed, h.first, h.bytes, ⟨lost, ?_, hlost⟩⟩
  have hpending : w.serve.pending = [msg] := by rw [serve]; rfl
  rw [hpending] at hreplies
  simpa [left, isReply_wire reply] using hreplies

theorem Unread.push_event (h : Unread msgs w buf unread) {event : DetectionEvent} {frame : Bytes}
    (short : encodeFrame msgs (.event event) = .ok frame) :
    Unread msgs { w with forward := .waiting, out := w.out ++ [.event event] } buf unread := by
  obtain ⟨lost, hreplies, hlost⟩ := h.replies
  refine ⟨h.framed, h.first, h.bytes, ⟨lost, ?_, hlost⟩⟩
  simpa [wire_of_encodes short, DaemonMsg.isReply] using hreplies

/-- A request is answered: the reply waits for its place in the channel. -/
theorem Unread.reply (h : Unread msgs w buf unread) (alive : w.killed = false)
    (serve : w.serve.pending = []) (r : GuiRequest) (last : Bool) :
    Unread msgs { w with serve := .replying msg last, handled := w.handled ++ [(r, msg)] } buf
      unread := by
  obtain ⟨lost, hreplies, hlost⟩ := h.replies
  obtain rfl := hlost alive
  refine ⟨h.framed, h.first, h.bytes, ⟨[], ?_, fun _ => rfl⟩⟩
  rw [serve, List.map_nil, List.append_nil, List.append_nil] at hreplies
  simp [← hreplies, ServePhase.pending]

/-- The process is gone, and with it what has not been written. -/
theorem Unread.kill (h : Unread msgs w buf unread) :
    Unread msgs
      { w with
        serve := .ended, forward := .ended, out := [], writer := .ended, up := [], killed := true }
      buf unread := by
  obtain ⟨lost, hbytes, -⟩ := h.bytes
  obtain ⟨lost', hreplies, -⟩ := h.replies
  refine ⟨h.framed, h.first, ⟨w.writer.rest ++ lost, ?_, nofun⟩,
    ⟨(w.out.map (wire msgs)).filter DaemonMsg.isReply ++ w.serve.pending.map (wire msgs) ++ lost',
      ?_, nofun⟩⟩
  · simpa [WriterPhase.rest] using hbytes
  · simpa [ServePhase.pending] using hreplies

end Unread

/-- A task that still runs is no task of a process that has been killed. -/
theorem IpcConn.Sound.alive (h : w.Sound reqs msgs req)
    (runs : w.serve ≠ .ended ∨ w.forward ≠ .ended ∨ w.writer ≠ .ended) : w.killed = false := by
  by_contra hkilled
  obtain ⟨hserve, hforward, -, hwriter⟩ := h.dead (by simpa using hkilled)
  rcases runs with hruns | hruns | hruns
  · exact hruns hserve
  · exact hruns hforward
  · exact hruns hwriter

/-- The task that writes outlives the request loop, as long as the app waits. -/
theorem IpcConn.Sound.writer_of_serve (h : w.Sound reqs msgs req) (serve : w.serve ≠ .ended)
    {buf : Bytes} (heard : w.client.heard = some buf) : w.writer ≠ .ended := by
  intro hwriter
  rcases h.closed hwriter with hkilled | hnone | ⟨hended, -⟩
  · exact serve (h.dead hkilled).1
  · cases heard.symm.trans hnone
  · exact serve hended

theorem heard_onFrame_of_cut {buf : Bytes} (cut : 0 < wants buf) :
    ∃ result, onFrame msgs buf = .done result ∧ Lost result := by
  rw [onFrame]
  rcases readFrame_of_cut cut with hread | hread <;> rw [hread]
  · exact ⟨_, rfl, trivial⟩
  · exact ⟨_, rfl, trivial⟩

/-- What the client has yet to read stays what was sent, frame by frame. -/
theorem IpcConn.Sound.unread_step (h : w.Sound reqs msgs req) (falls : FallsBack msgs)
    (step : IpcStep reqs msgs cap w ev w') {buf : Bytes} (hbuf : w'.client.heard = some buf) :
    ∃ unread, Unread msgs w' buf unread := by
  cases step with
  | clientWrite client | clientWritten client =>
      obtain rfl : [] = buf := Option.some.inj hbuf
      obtain ⟨unread, hunread⟩ := h.unread [] (by rw [client]; rfl)
      exact ⟨unread, hunread.framed, hunread.first, hunread.bytes, hunread.replies⟩
  | clientBroken => cases hbuf
  | clientEof client cut =>
      obtain ⟨result, hresult, -⟩ : ∃ result, onFrame msgs _ = .done result ∧ Lost result :=
        heard_onFrame_of_cut cut
      rw [hresult] at hbuf
      cases hbuf
  | clientReceive client some asked there =>
      obtain rfl := Option.some.inj hbuf
      obtain ⟨unread, hunread⟩ := h.unread _ (by rw [client]; rfl)
      exact ⟨unread, hunread.receive asked there⟩
  | clientFrame client whole =>
      obtain ⟨unread, hunread⟩ := h.unread _ (by rw [client]; rfl)
      obtain ⟨msg, unread, rfl, hframe⟩ := hunread.whole whole
      rw [onFrame_frame hframe] at hbuf ⊢
      cases hmsg : msg.isReply with
      | true =>
          rw [if_pos hmsg] at hbuf
          cases hbuf
      | false =>
          rw [if_neg (by simp [hmsg])] at hbuf ⊢
          obtain rfl : [] = buf := Option.some.inj hbuf
          exact ⟨unread, hunread.skip hframe hmsg⟩
  | serveFrame serve whole =>
      obtain ⟨unread, hunread⟩ := h.unread buf hbuf
      have hasked := h.asked
      rw [serve] at hasked
      obtain ⟨hframe, -, -, -⟩ := hasked.whole whole
      have hpending : w.serve.pending = [] := by rw [serve]; rfl
      rw [onRequest_frame hframe]
      split_ifs with hshutdown
      · exact ⟨unread, hunread.reply (h.alive (.inl (by simp [serve]))) hpending _ _⟩
      · refine ⟨unread, hunread.framed, hunread.first, hunread.bytes, ?_⟩
        have hreplies := hunread.replies
        rw [hpending] at hreplies
        exact hreplies
  | serveReceive serve | serveEof serve =>
      obtain ⟨unread, hunread⟩ := h.unread buf hbuf
      refine ⟨unread, hunread.framed, hunread.first, hunread.bytes, ?_⟩
      have hreplies := hunread.replies
      rw [serve] at hreplies
      exact hreplies
  | handle serve ops =>
      obtain ⟨unread, hunread⟩ := h.unread buf hbuf
      exact ⟨unread, hunread.reply (h.alive (.inl (by simp [serve]))) (by rw [serve]; rfl) _ _⟩
  | @serveSend msg last serve =>
      obtain ⟨unread, hunread⟩ := h.unread buf hbuf
      have hasked := h.asked
      rw [serve] at hasked
      refine ⟨unread, hunread.push_reply serve hasked.isReply ?_ _⟩
      cases last <;> rfl
  | serveSendFailed serve writer =>
      exact absurd writer (h.writer_of_serve (by simp [serve]) hbuf)
  | forwardSend forward =>
      obtain ⟨unread, hunread⟩ := h.unread buf hbuf
      obtain ⟨frame, hframe⟩ := h.short _ (.inr forward)
      exact ⟨unread, hunread.push_event hframe⟩
  | writerTake writer queued =>
      obtain ⟨unread, hunread⟩ := h.unread buf hbuf
      obtain ⟨frame, hframe⟩ := encodes_wire falls _
      rw [onMessage_eq hframe]
      exact ⟨_, hunread.take (h.alive (.inr (.inr (by simp [writer])))) writer queued hframe⟩
  | @writerWrite n rest writer =>
      obtain ⟨unread, hunread⟩ := h.unread buf hbuf
      refine ⟨unread, hunread.framed, hunread.first, ?_, hunread.replies⟩
      have hbytes := hunread.bytes
      rw [writer] at hbytes
      simpa [WriterPhase.rest] using hbytes
  | writerWritten writer =>
      obtain ⟨unread, hunread⟩ := h.unread buf hbuf
      refine ⟨unread, hunread.framed, hunread.first, ?_, hunread.replies⟩
      have hbytes := hunread.bytes
      rw [writer] at hbytes
      simpa [WriterPhase.rest] using hbytes
  | writerFailed writer gone =>
      obtain ⟨result, hresult⟩ := gone
      rw [hresult] at hbuf
      cases hbuf
  | writerClose writer =>
      obtain ⟨unread, hunread⟩ := h.unread buf hbuf
      refine ⟨unread, hunread.framed, hunread.first, ?_, hunread.replies⟩
      have hbytes := hunread.bytes
      rw [writer] at hbytes
      exact hbytes
  | kill =>
      obtain ⟨unread, hunread⟩ := h.unread buf hbuf
      exact ⟨unread, hunread.kill⟩
  | publish | forwardSendFailed | forwardAbort =>
      obtain ⟨unread, hunread⟩ := h.unread buf hbuf
      exact ⟨unread, hunread.framed, hunread.first, hunread.bytes, hunread.replies⟩

/-- A socket that is closed before the reply was read is one of a killed process. -/
theorem IpcConn.Sound.killed_of_closed (h : w.Sound reqs msgs req) (closed : w.Closed)
    {buf : Bytes} (heard : w.client.heard = some buf)
    (more : w.client.rest ≠ [] ∨ 0 < wants buf ∧ w.down = []) : w.killed = true := by
  by_contra hkilled
  have halive : w.killed = false := by simpa using hkilled
  have hhandled : w.handled ≠ [] := by
    rcases h.left closed.1 with hkilled' | hnone | hhandled
    · exact absurd hkilled' hkilled
    · cases heard.symm.trans hnone
    · exact hhandled
  have hout : w.out = [] := by
    rcases h.closed closed.2 with hkilled' | hnone | ⟨-, hout⟩
    · exact absurd hkilled' hkilled
    · cases heard.symm.trans hnone
    · exact hout
  rcases more with hrest | ⟨hwants, hdown⟩
  · have hasked := h.asked
    rw [closed.1] at hasked
    exact hrest (hasked.rest_of_answered hhandled)
  · obtain ⟨unread, hunread⟩ := h.unread buf heard
    have hwhole := hunread.whole_of_delivered halive hdown (by rw [closed.2]; rfl) hout
      (by rw [closed.1]; rfl) hhandled
    exact absurd hwhole hwants.ne'

/-- What `request` returns is what the engine answered, or it says why not. -/
theorem IpcConn.Sound.returned_step (h : w.Sound reqs msgs req)
    (step : IpcStep reqs msgs cap w ev w') {result : Except CmdError DaemonMsg}
    (hresult : w'.client = .done result) : Returned reqs msgs req w' result := by
  cases step with
  | clientWrite client => cases hresult
  | clientWritten client => cases hresult
  | clientReceive client => cases hresult
  | @clientBroken rest client closed =>
      obtain rfl := ClientPhase.done.inj hresult
      have heard : w.client.heard = some [] := by rw [client]; rfl
      refine .inr ⟨trivial, .inl (h.killed_of_closed closed heard (.inl ?_))⟩
      rw [client]
      exact h.busy rest client
  | clientFrame client whole =>
      obtain ⟨unread, hunread⟩ := h.unread _ (by rw [client]; rfl)
      obtain ⟨msg, unread, rfl, hframe⟩ := hunread.whole whole
      dsimp only at hresult
      rw [onFrame_frame hframe] at hresult
      split_ifs at hresult with hmsg
      obtain ⟨reply, hhandled, rfl⟩ := hunread.answer hmsg h.asked
      exact .inl ⟨reply, hhandled, (ClientPhase.done.inj hresult).symm⟩
  | clientEof client cut closed down =>
      obtain ⟨result', hcut, hlost⟩ : ∃ result, onFrame msgs _ = .done result ∧ Lost result :=
        heard_onFrame_of_cut cut
      obtain rfl : result' = result := ClientPhase.done.inj (hcut.symm.trans hresult)
      have hkilled := h.killed_of_closed closed (by rw [client]; rfl) (.inr ⟨cut, down⟩)
      exact .inr ⟨hlost, .inl hkilled⟩
  | serveFrame serve whole =>
      have hreturned := h.returned result hresult
      have hasked := h.asked
      rw [serve] at hasked
      obtain ⟨-, -, -, hhandled⟩ := hasked.whole whole
      rcases hreturned with ⟨reply, hreply, -⟩ | hlost
      · cases hhandled.symm.trans hreply
      · exact .inr hlost
  | handle serve ops =>
      have hreturned := h.returned result hresult
      have hasked := h.asked
      rw [serve] at hasked
      rcases hreturned with ⟨reply, hreply, -⟩ | hlost
      · cases hasked.unanswered.symm.trans hreply
      · exact .inr hlost
  | kill =>
      rcases h.returned result hresult with hreply | ⟨hlost, -⟩
      · exact .inl hreply
      · exact .inr ⟨hlost, .inl rfl⟩
  | _ => exact h.returned result hresult

/-! ### The tasks -/

/-- The client writes as long as there are bytes left. -/
theorem IpcConn.Sound.busy_step (h : w.Sound reqs msgs req)
    (step : IpcStep reqs msgs cap w ev w') {rest : Bytes} (hrest : w'.client = .writing rest) :
    rest ≠ [] := by
  have hframe : ∀ buf, onFrame msgs buf ≠ .writing rest := by
    intro buf
    rw [onFrame]
    split <;> nofun
  cases step with
  | @clientWrite n rest' client some room more =>
      obtain rfl : rest'.drop n = rest := ClientPhase.writing.inj hrest
      rwa [Ne, List.drop_eq_nil_iff, not_le]
  | clientWritten | clientBroken | clientReceive => cases hrest
  | clientFrame | clientEof => exact absurd hrest (hframe _)
  | _ => exact h.busy rest hrest

/-- The events in the channel have frames. -/
theorem IpcConn.Sound.short_step (h : w.Sound reqs msgs req)
    (step : IpcStep reqs msgs cap w ev w') {event : DetectionEvent}
    (hevent : .event event ∈ w'.out ∨ w'.forward = .sending event) :
    ∃ frame, encodeFrame msgs (.event event) = .ok frame := by
  cases step with
  | @publish event' frame forward short =>
      rcases hevent with hout | hsending
      · exact h.short event (.inl hout)
      · obtain rfl := ForwardPhase.sending.inj hsending
        exact ⟨frame, short⟩
  | @serveSend msg last serve =>
      rcases hevent with hout | hsending
      · rcases List.mem_append.mp hout with hout | hnew
        · exact h.short event (.inl hout)
        · -- a reply is no event
          have hasked := h.asked
          rw [serve] at hasked
          rw [← List.mem_singleton.mp hnew] at hasked
          cases hasked.isReply
      · exact h.short event (.inr hsending)
  | @forwardSend event' forward =>
      rcases hevent with hout | hsending
      · rcases List.mem_append.mp hout with hout | hnew
        · exact h.short event (.inl hout)
        · obtain rfl := DaemonMsg.event.inj (List.mem_singleton.mp hnew)
          exact h.short event (.inr forward)
      · cases hsending
  | writerTake writer queued =>
      refine h.short event (hevent.imp_left fun hout => ?_)
      rw [queued]
      exact List.mem_cons_of_mem _ hout
  | forwardSendFailed | forwardAbort =>
      rcases hevent with hout | hsending
      · exact h.short event (.inl hout)
      · cases hsending
  | kill =>
      rcases hevent with hout | hsending
      · cases hout
      · cases hsending
  | _ => exact h.short event hevent

/-- A killed daemon has no task left. -/
theorem IpcConn.Sound.dead_step (h : w.Sound reqs msgs req)
    (step : IpcStep reqs msgs cap w ev w') (killed : w'.killed = true) :
    w'.serve = .ended ∧ w'.forward = .ended ∧ w'.out = [] ∧ w'.writer = .ended := by
  cases step with
  | kill => exact ⟨rfl, rfl, rfl, rfl⟩
  | clientWrite | clientWritten | clientBroken | clientReceive | clientFrame | clientEof =>
      exact h.dead killed
  | serveReceive serve | serveFrame serve | serveEof serve | handle serve | serveSend serve
  | serveSendFailed serve =>
      have hended := (h.dead killed).1
      rw [serve] at hended
      cases hended
  | publish forward | forwardSend forward | forwardSendFailed forward =>
      have hended := (h.dead killed).2.1
      rw [forward] at hended
      cases hended
  | forwardAbort serve forward => exact absurd (h.dead killed).2.1 forward
  | writerTake writer | writerWrite writer | writerWritten writer | writerFailed writer
  | writerClose writer =>
      have hended := (h.dead killed).2.2.2
      rw [writer] at hended
      cases hended

/-- The request loop ends after its request, or with the connection. -/
theorem IpcConn.Sound.left_step (h : w.Sound reqs msgs req)
    (step : IpcStep reqs msgs cap w ev w') (left : w'.serve = .ended) :
    w'.killed = true ∨ w'.client.heard = none ∨ w'.handled ≠ [] := by
  have hclient : ∀ buf, w.client.heard = some buf → w.serve = .ended →
      w.killed = true ∨ w.handled ≠ [] := by
    intro buf hbuf hended
    rcases h.left hended with hkilled | hnone | hhandled
    · exact .inl hkilled
    · cases hbuf.symm.trans hnone
    · exact .inr hhandled
  cases step with
  | clientWrite client | clientWritten client | clientBroken client | clientReceive client
  | clientFrame client | clientEof client =>
      exact (hclient _ (by rw [client]; rfl) left).imp_right .inr
  | serveReceive serve => cases left
  | @serveFrame buf serve whole =>
      have hasked := h.asked
      rw [serve] at hasked
      obtain ⟨hframe, -, -, -⟩ := hasked.whole whole
      dsimp only at left
      rw [onRequest_frame hframe] at left
      split_ifs at left
  | serveEof serve cut gone =>
      obtain ⟨result, hresult⟩ := gone
      exact .inr (.inl (by rw [hresult]; rfl))
  | handle => cases left
  | serveSend serve | serveSendFailed serve =>
      have hasked := h.asked
      rw [serve] at hasked
      exact .inr (.inr hasked.answered_ne_nil)
  | kill => exact .inl rfl
  | _ => exact h.left left

/-- The writer task ends when nothing is left to write. -/
theorem IpcConn.Sound.closed_step (h : w.Sound reqs msgs req) (falls : FallsBack msgs)
    (step : IpcStep reqs msgs cap w ev w') (closed : w'.writer = .ended) :
    w'.killed = true ∨ w'.client.heard = none ∨ w'.serve = .ended ∧ w'.out = [] := by
  have hserve : w.writer = .ended → w.serve ≠ .ended → w.killed = true ∨ w.client.heard = none := by
    intro hwriter hserve
    rcases h.closed hwriter with hkilled | hnone | ⟨hended, -⟩
    · exact .inl hkilled
    · exact .inr hnone
    · exact absurd hended hserve
  cases step with
  | clientWrite client | clientWritten client | clientBroken client | clientReceive client
  | clientFrame client | clientEof client =>
      rcases h.closed closed with hkilled | hnone | hended
      · exact .inl hkilled
      · rw [client] at hnone
        cases hnone
      · exact .inr (.inr hended)
  | serveReceive serve | serveFrame serve | serveEof serve | handle serve
  | serveSendFailed serve =>
      exact (hserve closed (by rw [serve]; nofun)).imp_right .inl
  | serveSend _ _ writer | forwardSend _ _ writer => exact absurd closed writer
  | writerTake =>
      obtain ⟨frame, hframe⟩ := encodes_wire falls _
      dsimp only at closed
      rw [onMessage_eq hframe] at closed
      cases closed
  | writerWrite | writerWritten => cases closed
  | writerFailed writer gone =>
      obtain ⟨result, hresult⟩ := gone
      exact .inr (.inl (by rw [hresult]; rfl))
  | writerClose writer out serve => exact .inr (.inr ⟨serve, out⟩)
  | kill => exact .inl rfl
  | publish | forwardSendFailed | forwardAbort => exact h.closed closed

/-- Only a shutdown request shuts the daemon down. -/
theorem IpcConn.Sound.tripped_step (h : w.Sound reqs msgs req)
    (step : IpcStep reqs msgs cap w ev w') (tripped : w'.tripped = true) :
    req = .shutdown ∧ w'.handled ≠ [] := by
  cases step with
  | serveFrame serve whole =>
      have hasked := h.asked
      rw [serve] at hasked
      exact absurd (hasked.whole whole).2.2.2 (h.tripped tripped).2
  | handle serve =>
      have hasked := h.asked
      rw [serve] at hasked
      exact absurd hasked.unanswered (h.tripped tripped).2
  | serveSend serve | serveSendFailed serve =>
      have hasked := h.asked
      rw [serve] at hasked
      rcases Bool.or_eq_true_iff.mp tripped with hbefore | hlast
      · exact h.tripped hbefore
      · exact ⟨hasked.shutdown hlast, hasked.answered_ne_nil⟩
  | _ => exact h.tripped tripped

/-- Every step keeps the connection sound, one clause after the other. -/
theorem IpcConn.Sound.step (h : w.Sound reqs msgs req) (falls : FallsBack msgs)
    (step : IpcStep reqs msgs cap w ev w') : w'.Sound reqs msgs req where
  asked := h.asked_step step
  tripped := h.tripped_step step
  busy _ := h.busy_step step
  short _ := h.short_step step
  dead := h.dead_step step
  left := h.left_step step
  closed := h.closed_step falls step
  unread _ := h.unread_step falls step
  returned _ := h.returned_step step

/-- A fresh connection is sound. -/
theorem sound_opened : (IpcConn.opened reqs req).Sound reqs msgs req := by
  have hclient : (∃ frame, encodeFrame reqs req = .ok frame ∧
        (IpcConn.opened reqs req).client = .writing frame) ∨
      ∃ e, encodeFrame reqs req = .error e ∧
        (IpcConn.opened reqs req).client = .done (.error (.io e)) := by
    rw [IpcConn.opened]
    cases encodeFrame reqs req with
    | ok frame => exact .inl ⟨frame, rfl, rfl⟩
    | error e => exact .inr ⟨e, rfl, rfl⟩
  refine ⟨?_, nofun, fun rest hrest => ?_, ?_, nofun, nofun, nofun, fun buf hbuf => ?_,
    fun result hresult => ?_⟩
  · refine .arriving ?_
    rcases hclient with ⟨frame, hframe, hwriting⟩ | ⟨e, herror, hdone⟩
    · rw [hwriting, frameOf_eq hframe]
      rfl
    · rw [hdone, frameOf, herror]
      rfl
  · rcases hclient with ⟨frame, hframe, hwriting⟩ | ⟨e, herror, hdone⟩
    · obtain rfl := ClientPhase.writing.inj (hwriting.symm.trans hrest)
      exact frame_ne_nil hframe
    · cases hdone.symm.trans hrest
  · rintro event (hout | hsending)
    · cases hout
    · cases hsending
  · rcases hclient with ⟨frame, hframe, hwriting⟩ | ⟨e, herror, hdone⟩
    · rw [hwriting] at hbuf
      obtain rfl : [] = buf := Option.some.inj hbuf
      exact ⟨[], nofun, List.nil_prefix, ⟨[], rfl, fun _ => rfl⟩, ⟨[], rfl, fun _ => rfl⟩⟩
    · rw [hdone] at hbuf
      cases hbuf
  · rcases hclient with ⟨frame, hframe, hwriting⟩ | ⟨e, herror, hdone⟩
    · cases hwriting.symm.trans hresult
    · obtain rfl := ClientPhase.done.inj (hdone.symm.trans hresult)
      exact .inr ⟨trivial, .inr ⟨e, herror⟩⟩

end Step

/-! ## Every run -/

section Runs

variable {reqs : Json GuiRequest} {msgs : Json DaemonMsg} {req : GuiRequest} {cap : ℕ}
  {w w' : IpcConn} {ev : IpcEvent} {trace : List IpcEvent}

theorem sound_of_run (falls : FallsBack msgs)
    (run : Run (IpcStep reqs msgs cap) (IpcConn.opened reqs req) trace w) :
    w.Sound reqs msgs req :=
  run.invariant (fun _ _ _ h step => h.step falls step) sound_opened

/-- A daemon that has been killed was killed in the run. -/
theorem kill_mem_of_killed
    (run : Run (IpcStep reqs msgs cap) (IpcConn.opened reqs req) trace w)
    (killed : w.killed = true) : .kill ∈ trace := by
  induction run with
  | nil => cases killed
  | snoc run step ih =>
      cases step with
      | kill => exact List.mem_append_right _ (List.mem_singleton_self _)
      | _ => exact List.mem_append_left _ (ih killed)

/-- What `request` returns is what the engine answered, or that there was no answer. -/
theorem result_of_run (falls : FallsBack msgs)
    (run : Run (IpcStep reqs msgs cap) (IpcConn.opened reqs req) trace w)
    {result : Except CmdError DaemonMsg} (hresult : w.client = .done result) :
    (∃ ops, w.handled = [(req, handleRequest ops req)] ∧
      result = outcome (wire msgs (handleRequest ops req))) ∨
    Lost result ∧ (.kill ∈ trace ∨ ∃ e, encodeFrame reqs req = .error e) := by
  have h := sound_of_run falls run
  rcases h.returned result hresult with ⟨reply, hhandled, rfl⟩ | ⟨hlost, hkilled | herror⟩
  · rcases h.asked.handled_cases with hnil | ⟨ops, hops⟩
    · cases hnil.symm.trans hhandled
    · obtain rfl : handleRequest ops req = reply := by
        rw [hops] at hhandled
        exact (Prod.mk.inj (List.cons.inj hhandled).1).2
      exact .inl ⟨ops, hops, rfl⟩
  · exact .inr ⟨hlost, .inl (kill_mem_of_killed run hkilled)⟩
  · exact .inr ⟨hlost, .inr herror⟩

/-- **`request` returns the engine's answer to it.**  In every run of a connection the engine
is asked at most once, and for nothing but the request; what `request` returns is what the engine
answered, or that there was no answer, which takes a daemon that was killed or a request that
cannot be encoded; and the daemon is shut down only by a shutdown request. -/
theorem request_answered (falls : FallsBack msgs)
    (run : Run (IpcStep reqs msgs cap) (IpcConn.opened reqs req) trace w) :
    (w.handled = [] ∨ ∃ ops, w.handled = [(req, handleRequest ops req)]) ∧
    (∀ result, w.client = .done result →
      (∃ ops, w.handled = [(req, handleRequest ops req)] ∧
        result = outcome (wire msgs (handleRequest ops req))) ∨
      Lost result ∧ (.kill ∈ trace ∨ ∃ e, encodeFrame reqs req = .error e)) ∧
    (w.tripped = true → req = .shutdown) := by
  have h := sound_of_run falls run
  exact ⟨h.asked.handled_cases, fun _ hresult => result_of_run falls run hresult,
    fun htripped => (h.tripped htripped).1⟩

/-! ### What is left to do -/

/-- What the request loop has read of the next frame. -/
def ServePhase.buf : ServePhase → Bytes
  | .reading buf => buf
  | _ => []

/-- Bytes of requests that the loop has not read. -/
def IpcConn.unheard (w : IpcConn) : ℕ :=
  w.client.rest.length + w.up.length + w.serve.buf.length

/-- How far the request loop is from its end, once it has taken a request off the stream. -/
def ServePhase.rank : ServePhase → ℕ
  | .handling _ => 3
  | .replying _ _ => 2
  | .reading _ => 1
  | .ended => 0

/-- The steps that a message in the channel can take. -/
def cost (msgs : Json DaemonMsg) (msg : DaemonMsg) : ℕ :=
  3 + 3 * (frameOf msgs (wire msgs msg)).length

/-- The steps left for the client: it writes its request and reads to the reply. -/
def ClientPhase.work : ClientPhase → ℕ
  | .writing rest => 2 + 2 * rest.length
  | .reading buf => 1 + buf.length
  | .done _ => 0

/-- What is left to do for the event at hand. -/
def ForwardPhase.work (msgs : Json DaemonMsg) : ForwardPhase → ℕ
  | .waiting => 1
  | .sending event => 2 + cost msgs (.event event)
  | .ended => 0

/-- What is left to do for the frame at hand; each byte is still to be written, sent and read. -/
def WriterPhase.work : WriterPhase → ℕ
  | .waiting => 1
  | .writing rest => 2 + 3 * rest.length
  | .ended => 0

/-- The steps that are left while the loop does nothing. -/
def IpcConn.work (msgs : Json DaemonMsg) (w : IpcConn) : ℕ :=
  w.client.work + w.up.length + w.forward.work msgs + (w.out.map (cost msgs)).sum +
    w.writer.work + 2 * w.down.length

/-- Reading a frame leaves the app with less to do. -/
theorem work_onFrame {buf : Bytes} (whole : wants buf = 0) :
    (onFrame msgs buf).work < (ClientPhase.reading buf).work := by
  have hpos : 0 < buf.length := by
    by_contra hzero
    obtain rfl : buf = [] := by simpa using hzero
    cases whole
  rw [onFrame]
  split <;> simp only [ClientPhase.work, List.length_nil] <;> omega

/-- Taking a message off the channel leaves the writer with less to do. -/
theorem work_onMessage (msg : DaemonMsg) :
    (onMessage msgs msg).work + 1 ≤ cost msgs msg := by
  rw [onMessage, cost]
  cases hframe : encodeFrame msgs (wire msgs msg) with
  | ok frame =>
      rw [frameOf_eq hframe]
      simp only [WriterPhase.work]
      omega
  | error e =>
      simp only [WriterPhase.work]
      omega

/-- What every internal step makes smaller: the bytes of requests that the loop has not read, the
rank of the loop, and the steps that are left while it does nothing. -/
def IpcConn.measure (msgs : Json DaemonMsg) (w : IpcConn) : ℕ ×ₗ ℕ ×ₗ ℕ :=
  toLex (w.unheard, toLex (w.serve.rank, w.work msgs))

theorem measure_lt_of_unheard (h : w'.unheard < w.unheard) : w'.measure msgs < w.measure msgs :=
  Prod.Lex.toLex_lt_toLex.mpr (.inl h)

theorem measure_lt_of_rank (hunheard : w'.unheard ≤ w.unheard) (h : w'.serve.rank < w.serve.rank) :
    w'.measure msgs < w.measure msgs := by
  rcases hunheard.lt_or_eq with hlt | heq
  · exact measure_lt_of_unheard hlt
  · exact Prod.Lex.toLex_lt_toLex.mpr (.inr ⟨heq, Prod.Lex.toLex_lt_toLex.mpr (.inl h)⟩)

theorem measure_lt_of_work (hunheard : w'.unheard ≤ w.unheard)
    (hrank : w'.serve.rank = w.serve.rank) (h : w'.work msgs < w.work msgs) :
    w'.measure msgs < w.measure msgs := by
  rcases hunheard.lt_or_eq with hlt | heq
  · exact measure_lt_of_unheard hlt
  · exact Prod.Lex.toLex_lt_toLex.mpr
      (.inr ⟨heq, Prod.Lex.toLex_lt_toLex.mpr (.inr ⟨hrank, h⟩)⟩)

/-- Every step that is neither a new event nor the end of the process gets the connection
further. -/
theorem IpcStep.measure_lt (step : IpcStep reqs msgs cap w ev w') (hinternal : ev.Internal) :
    w'.measure msgs < w.measure msgs := by
  cases step with
  | clientWrite client some room more =>
      refine measure_lt_of_work ?_ rfl ?_
      · simp only [IpcConn.unheard, client, ClientPhase.rest, List.length_append,
          List.length_take, List.length_drop]
        omega
      · simp only [IpcConn.work, ClientPhase.work, client, List.length_append, List.length_take,
          List.length_drop]
        omega
  | clientWritten client room =>
      refine measure_lt_of_work ?_ rfl ?_
      · simp only [IpcConn.unheard, client, ClientPhase.rest, List.length_append, List.length_nil]
        omega
      · simp only [IpcConn.work, ClientPhase.work, client, List.length_append, List.length_nil]
        omega
  | clientBroken client closed =>
      refine measure_lt_of_work ?_ rfl ?_
      · simp only [IpcConn.unheard, client, ClientPhase.rest, List.length_nil]
        omega
      · simp only [IpcConn.work, ClientPhase.work, client]
        omega
  | clientReceive client some asked there =>
      refine measure_lt_of_work ?_ rfl ?_
      · simp only [IpcConn.unheard, client, ClientPhase.rest]
        exact le_rfl
      · simp only [IpcConn.work, ClientPhase.work, client, List.length_append, List.length_take,
          List.length_drop]
        omega
  | clientFrame client whole =>
      refine measure_lt_of_work ?_ rfl ?_
      · simp only [IpcConn.unheard, rest_onFrame]
        simp
      · have hlt : (onFrame msgs _).work < _ := work_onFrame whole
        rw [← client] at hlt
        simp only [IpcConn.work]
        omega
  | clientEof client cut closed down =>
      obtain ⟨result, hresult, -⟩ : ∃ result, onFrame msgs _ = .done result ∧ Lost result :=
        heard_onFrame_of_cut cut
      refine measure_lt_of_work ?_ rfl ?_
      · simp only [IpcConn.unheard, rest_onFrame]
        simp
      · simp only [IpcConn.work, ClientPhase.work, client, hresult]
        omega
  | serveReceive serve some asked there =>
      refine measure_lt_of_work ?_ (by rw [serve]; rfl) ?_
      · simp only [IpcConn.unheard, serve, ServePhase.buf, List.length_append, List.length_take,
          List.length_drop]
        omega
      · simp only [IpcConn.work, List.length_drop]
        omega
  | @serveFrame buf serve whole =>
      have hbuf : (onRequest reqs buf w.handled).1.buf = [] := by
        rw [onRequest]
        split <;> rfl
      have hpos : 0 < buf.length := by
        by_contra hzero
        obtain rfl : buf = [] := by simpa using hzero
        cases whole
      refine measure_lt_of_unheard ?_
      show w.client.rest.length + w.up.length + (onRequest reqs buf w.handled).1.buf.length
        < w.client.rest.length + w.up.length + w.serve.buf.length
      rw [hbuf, serve]
      exact Nat.add_lt_add_left hpos _
  | serveEof serve cut gone up =>
      refine measure_lt_of_rank ?_ (by rw [serve]; exact Nat.zero_lt_one)
      simp only [IpcConn.unheard, serve, ServePhase.buf, List.length_nil]
      omega
  | handle serve ops =>
      refine measure_lt_of_rank ?_ (by rw [serve]; exact Nat.lt_succ_self 2)
      simp only [IpcConn.unheard, serve, ServePhase.buf]
      exact le_rfl
  | @serveSend msg last serve =>
      refine measure_lt_of_rank ?_ ?_
      · cases last <;> simp [IpcConn.unheard, serve, ServePhase.buf]
      · rw [serve]
        cases last
        · exact Nat.one_lt_two
        · exact Nat.zero_lt_two
  | serveSendFailed serve =>
      refine measure_lt_of_rank ?_ (by rw [serve]; exact Nat.zero_lt_two)
      simp only [IpcConn.unheard, serve, ServePhase.buf]
      exact le_rfl
  | forwardSend forward room writer =>
      refine measure_lt_of_work le_rfl rfl ?_
      simp only [IpcConn.work, ForwardPhase.work, forward, List.map_append, List.sum_append,
        List.map_cons, List.map_nil, List.sum_cons, List.sum_nil]
      omega
  | forwardSendFailed forward =>
      refine measure_lt_of_work le_rfl rfl ?_
      simp only [IpcConn.work, ForwardPhase.work, forward]
      omega
  | forwardAbort serve forward =>
      refine measure_lt_of_work le_rfl rfl ?_
      simp only [IpcConn.work]
      cases hforward : w.forward with
      | ended => exact absurd hforward forward
      | waiting | sending => simp only [ForwardPhase.work]; omega
  | @writerTake msg out writer queued =>
      refine measure_lt_of_work le_rfl rfl ?_
      have hle : (onMessage msgs msg).work + 1 ≤ _ := work_onMessage msg
      have hwaiting : w.writer.work = 1 := by rw [writer]; rfl
      simp only [IpcConn.work, queued, hwaiting, List.map_cons, List.sum_cons]
      omega
  | writerWrite writer some room more =>
      refine measure_lt_of_work le_rfl rfl ?_
      simp only [IpcConn.work, WriterPhase.work, writer, List.length_append, List.length_take,
        List.length_drop]
      omega
  | writerWritten writer room =>
      refine measure_lt_of_work le_rfl rfl ?_
      simp only [IpcConn.work, WriterPhase.work, writer, List.length_append]
      omega
  | writerFailed writer =>
      refine measure_lt_of_work le_rfl rfl ?_
      simp only [IpcConn.work, WriterPhase.work, writer]
      omega
  | writerClose writer =>
      refine measure_lt_of_work le_rfl rfl ?_
      simp only [IpcConn.work, WriterPhase.work, writer]
      omega
  | publish | kill => exact hinternal.elim

/-- Some task can go on. -/
def CanStep (reqs : Json GuiRequest) (msgs : Json DaemonMsg) (cap : ℕ) (w : IpcConn) : Prop :=
  ∃ ev w', ev.Internal ∧ IpcStep reqs msgs cap w ev w'

theorem canStep_of_serve {buf : Bytes} (serve : w.serve = .reading buf)
    (more : wants buf = 0 ∨ w.up ≠ []) : CanStep reqs msgs cap w := by
  by_cases hwhole : wants buf = 0
  · exact ⟨.serveFrame, _, trivial, .serveFrame serve hwhole⟩
  · have hup : 0 < w.up.length := List.length_pos_iff.mpr (more.resolve_left hwhole)
    exact ⟨.serveReceive 1, _, trivial,
      .serveReceive serve Nat.zero_lt_one (Nat.one_le_iff_ne_zero.mpr hwhole) hup⟩

/-- The app can write: if its socket is full, the loop reads. -/
theorem IpcConn.Sound.can_write (h : w.Sound reqs msgs req) (hcap : 0 < cap) {rest : Bytes}
    (client : w.client = .writing rest) : CanStep reqs msgs cap w := by
  have hrest : 0 < rest.length := List.length_pos_iff.mpr (h.busy rest client)
  by_cases hroom : w.up.length + 1 ≤ cap
  · by_cases hlast : rest.length = 1
    · exact ⟨.clientWrite rest.length, _, trivial, .clientWritten client (by omega)⟩
    · exact ⟨.clientWrite 1, _, trivial,
        .clientWrite client Nat.zero_lt_one hroom (by omega)⟩
  · have hup : w.up ≠ [] := by
      intro hnil
      rw [hnil, List.length_nil] at hroom
      omega
    have hasked := h.asked
    rw [client] at hasked
    cases hserve : w.serve with
    | reading buf => exact canStep_of_serve hserve (.inr hup)
    | handling r => exact ⟨.handle default, _, trivial, .handle hserve default⟩
    | replying msg last =>
        rw [hserve] at hasked
        exact absurd (hasked.rest_of_answered hasked.answered_ne_nil) (h.busy rest client)
    | ended =>
        -- the daemon was killed before the request was there
        have hkilled : w.killed = true := by
          rcases h.left hserve with hkilled | hnone | hhandled
          · exact hkilled
          · rw [client] at hnone
            cases hnone
          · exact absurd (hasked.rest_of_answered hhandled) (h.busy rest client)
        exact ⟨.clientBroken, _, trivial, .clientBroken client ⟨hserve, (h.dead hkilled).2.2.2⟩⟩

/-- The channel is empty, and the app has read everything: the loop goes on. -/
theorem IpcConn.Sound.can_serve (h : w.Sound reqs msgs req) {request : Bytes}
    (encoded : encodeFrame reqs req = .ok request) {buf : Bytes}
    (client : w.client = .reading buf) (cut : wants buf ≠ 0) (down : w.down = [])
    (writer : w.writer = .waiting) (out : w.out = []) : CanStep reqs msgs cap w := by
  have halive := h.alive (.inr (.inr (by simp [writer])))
  cases hserve : w.serve with
  | handling r => exact ⟨.handle default, _, trivial, .handle hserve default⟩
  | replying msg last =>
      refine ⟨.serveSend, _, trivial, .serveSend hserve ?_ (by simp [writer])⟩
      rw [out]
      decide
  | ended =>
      by_cases hforward : w.forward = .ended
      · exact ⟨.writerClose, _, trivial, .writerClose writer out hserve hforward⟩
      · exact ⟨.forwardAbort, _, trivial, .forwardAbort hserve hforward⟩
  | reading read =>
      by_cases hup : w.up = []
      · refine canStep_of_serve hserve (.inl ?_)
        have hunanswered : w.handled = [] := by
          by_contra hhandled
          obtain ⟨unread, hunread⟩ := h.unread buf (by rw [client]; rfl)
          exact cut (hunread.whole_of_delivered halive down (by rw [writer]; rfl) out
            (by rw [hserve]; rfl) hhandled)
        have hasked := h.asked
        rw [hserve, hup, hunanswered, client, frameOf_eq encoded] at hasked
        rw [hasked.arrived, wants_frame encoded]
      · exact canStep_of_serve hserve (.inr hup)

/-- While the client reads, some task can go on. -/
theorem IpcConn.Sound.can_read (h : w.Sound reqs msgs req) (hcap : 0 < cap) {request : Bytes}
    (encoded : encodeFrame reqs req = .ok request) {buf : Bytes}
    (client : w.client = .reading buf) : CanStep reqs msgs cap w := by
  by_cases hwhole : wants buf = 0
  · exact ⟨.clientFrame, _, trivial, .clientFrame client hwhole⟩
  have hwants : 0 < wants buf := Nat.pos_of_ne_zero hwhole
  by_cases hdown : w.down = []
  · cases hwriter : w.writer with
    | waiting =>
        cases hout : w.out with
        | nil => exact h.can_serve encoded client hwhole hdown hwriter hout
        | cons msg out => exact ⟨.writerTake, _, trivial, .writerTake hwriter hout⟩
    | writing rest =>
        by_cases hlast : rest.length ≤ 1
        · refine ⟨.writerWrite rest.length, _, trivial, .writerWritten hwriter ?_⟩
          rw [hdown, List.length_nil]
          omega
        · refine ⟨.writerWrite 1, _, trivial, .writerWrite hwriter Nat.zero_lt_one ?_ (by omega)⟩
          rw [hdown, List.length_nil]
          omega
    | ended =>
        have hserve : w.serve = .ended := by
          rcases h.closed hwriter with hkilled | hnone | ⟨hserve, -⟩
          · exact (h.dead hkilled).1
          · rw [client] at hnone
            cases hnone
          · exact hserve
        exact ⟨.clientEof, _, trivial, .clientEof client hwants ⟨hserve, hwriter⟩ hdown⟩
  · exact ⟨.clientReceive 1, _, trivial,
      .clientReceive client Nat.zero_lt_one hwants (List.length_pos_iff.mpr hdown)⟩

theorem IpcConn.Sound.can_step (h : w.Sound reqs msgs req) (hcap : 0 < cap) {request : Bytes}
    (encoded : encodeFrame reqs req = .ok request)
    (waiting : ∀ result, w.client ≠ .done result) : CanStep reqs msgs cap w := by
  cases hclient : w.client with
  | writing rest => exact h.can_write hcap hclient
  | reading buf => exact h.can_read hcap encoded hclient
  | done result => exact absurd hclient (waiting result)

theorem internal_wellFounded :
    WellFounded (fun w' w => ∃ ev : IpcEvent, ev.Internal ∧ IpcStep reqs msgs cap w ev w') := by
  refine Subrelation.wf ?_ (InvImage.wf (IpcConn.measure msgs) wellFounded_lt)
  rintro w' w ⟨ev, hinternal, step⟩
  exact step.measure_lt hinternal

/-- The daemon left to itself answers. -/
theorem exists_run_done (falls : FallsBack msgs) (hcap : 0 < cap) {request : Bytes}
    (encoded : encodeFrame reqs req = .ok request) (h : w.Sound reqs msgs req) :
    ∃ trace w', Run (IpcStep reqs msgs cap) w trace w' ∧ (∀ ev ∈ trace, ev.Internal) ∧
      ∃ result, w'.client = .done result := by
  have hwf : WellFounded (fun w' w => ∃ ev : IpcEvent, ev.Internal ∧
      IpcStep reqs msgs cap w ev w') := internal_wellFounded
  induction w using hwf.induction with
  | _ w ih =>
      by_cases hdone : ∃ result, w.client = .done result
      · exact ⟨[], w, Run.nil, List.forall_mem_nil _, hdone⟩
      · obtain ⟨ev, w₁, hinternal, step⟩ :=
          h.can_step hcap encoded fun result hresult => hdone ⟨result, hresult⟩
        obtain ⟨trace, w', run, hall, hresult⟩ := ih w₁ ⟨ev, hinternal, step⟩ (h.step falls step)
        refine ⟨ev :: trace, w', (Run.single step).trans run, ?_, hresult⟩
        exact List.forall_mem_cons.mpr ⟨hinternal, hall⟩

/-- A request without a frame is done from the start. -/
theorem done_of_error {e : IpcError} (herror : encodeFrame reqs req = .error e)
    (run : Run (IpcStep reqs msgs cap) (IpcConn.opened reqs req) trace w) :
    ∃ result, w.client = .done result := by
  refine run.invariant (I := fun w => ∃ result, w.client = .done result) ?_
    ⟨.error (.io e), by rw [IpcConn.opened, herror]⟩
  rintro w ev w' ⟨result, hresult⟩ step
  cases step with
  | clientWrite client | clientWritten client | clientBroken client | clientReceive client
  | clientFrame client | clientEof client => cases hresult.symm.trans client
  | _ => exact ⟨result, hresult⟩

/-- **`request` returns.**  No run goes on for ever unless the engine publishes events for ever,
and where nothing is left to do, `request` has returned: with full sockets and a full channel the
tasks do not wait for each other. -/
theorem request_completes (falls : FallsBack msgs) (hcap : 0 < cap)
    (run : Run (IpcStep reqs msgs cap) (IpcConn.opened reqs req) trace w) :
    WellFounded (fun w' w => ∃ ev : IpcEvent, ev.Internal ∧ IpcStep reqs msgs cap w ev w') ∧
    ((∀ ev w', ev.Internal → ¬ IpcStep reqs msgs cap w ev w') →
      ∃ result, w.client = .done result) := by
  refine ⟨internal_wellFounded, fun hquiet => ?_⟩
  cases hencoded : encodeFrame reqs req with
  | error e => exact done_of_error hencoded run
  | ok request =>
      by_contra hwaiting
      obtain ⟨ev, w', hinternal, step⟩ := (sound_of_run falls run).can_step hcap hencoded
        fun result hresult => hwaiting ⟨result, hresult⟩
      exact hquiet ev w' hinternal step

end Runs

section Example

/-- A table of distinct texts can be read back. -/
theorem lossless_of_nodup {α : Type} [DecidableEq α] {table : List (α × Bytes)}
    (distinct : (table.map Prod.snd).Nodup) {msg : α} {body : Bytes}
    (h : (table.find? fun row => row.1 = msg).map Prod.snd = some body) :
    (table.find? fun row => row.2 = body).map Prod.fst = some msg := by
  obtain ⟨row, hrow, rfl⟩ := Option.map_eq_some_iff.mp h
  have hmem := List.mem_of_find?_eq_some hrow
  have hmsg : row.1 = msg := by simpa using List.find?_some hrow
  cases hfind : table.find? fun row' => row'.2 = row.2 with
  | none =>
      have hnot := List.find?_eq_none.mp hfind row hmem
      simp at hnot
  | some row' =>
      have hbody : row'.2 = row.2 := by simpa using List.find?_some hfind
      obtain rfl : row' = row :=
        List.inj_on_of_nodup_map distinct (List.mem_of_find?_eq_some hfind) hmem hbody
      rw [Option.map_some, hmsg]

/-- `serde_json` at the messages of a table. The texts have to be distinct, so that each is
read back as its message, and none is empty. -/
def jsonOfTable {α : Type} [DecidableEq α] (table : List (α × Bytes))
    (distinct : (table.map Prod.snd).Nodup) (nonempty : [] ∉ table.map Prod.snd) : Json α where
  toVec msg := (table.find? fun row => row.1 = msg).map Prod.snd
  fromSlice body := (table.find? fun row => row.2 = body).map Prod.fst
  incomplete body := body = [] || table.any fun row => body <+: row.2
  empty := by
    refine ⟨?_, rfl⟩
    rw [Option.map_eq_none_iff, List.find?_eq_none]
    exact fun row hrow hbody => nonempty (of_decide_eq_true hbody ▸ List.mem_map_of_mem hrow)
  lossless := lossless_of_nodup distinct

/-- The bytes of a text. -/
def textBytes (text : String) : Bytes := Utf8.encode text.toList

/-- The JSON of an error. -/
def errorBytes (message : String) : Bytes :=
  textBytes
    ("\x7b\"type\":\"error\",\"data\":\x7b\"message\":\"" ++ message ++ "\"\x7d\x7d")

/-- A request to back up game 7. -/
def backupJson : Json GuiRequest :=
  jsonOfTable
    [(.backupNow 7, textBytes ("\x7b\"type\":\"backup_now\"," ++
      "\"game_id\":\"00000000-0000-0000-0000-000000000007\"\x7d"))]
    (List.nodup_singleton _) (by decide +kernel)

/-- The reply, an event, and what stands for a message that has no frame: all that the runs
below send. -/
def okJson : Json DaemonMsg :=
  jsonOfTable
    [(.ok, textBytes "\x7b\"type\":\"ok\"\x7d"),
      (.event .catalogUpdated, textBytes
        "\x7b\"type\":\"event\",\"data\":\x7b\"type\":\"catalog_updated\"\x7d\x7d"),
      (.error "daemon could not encode reply: frame too large",
        errorBytes "daemon could not encode reply: frame too large"),
      (.error "daemon could not encode reply: invalid JSON",
        errorBytes "daemon could not encode reply: invalid JSON")]
    (by decide +kernel) (by decide +kernel)

/-- Why a message has no frame. -/
theorem encodeFrame_error_cases {α : Type} {json : Json α} {msg : α} {e : IpcError}
    (h : encodeFrame json msg = .error e) : e = .json ∨ e = .other "frame too large" := by
  rw [encodeFrame] at h
  cases hbody : json.toVec msg with
  | none =>
      rw [hbody] at h
      exact .inl (Except.error.inj h).symm
  | some body =>
      rw [hbody, Option.elim_some] at h
      split_ifs at h
      · exact .inr (Except.error.inj h).symm
      · exact .inr (Except.error.inj h).symm

theorem ok_of_toOption {ε α : Type} {x : Except ε α} (h : x.toOption.isSome = true) :
    ∃ a, x = .ok a := by
  cases x with
  | error e => cases h
  | ok a => exact ⟨a, rfl⟩

theorem fallsBack_okJson : FallsBack okJson := by
  intro msg e herror
  rcases encodeFrame_error_cases herror with rfl | rfl
  · exact ok_of_toOption (by decide +kernel)
  · exact ok_of_toOption (by decide +kernel)

/-- A backup request is answered in some run. -/
theorem backup_answered :
    ∃ (trace : List IpcEvent) (w : IpcConn) (ops : Operations),
      Run (IpcStep backupJson okJson 4096) (IpcConn.opened backupJson (.backupNow 7)) trace w ∧
      w.handled = [(.backupNow 7, handleRequest ops (.backupNow 7))] ∧
      w.client = .done (outcome (wire okJson (handleRequest ops (.backupNow 7)))) := by
  obtain ⟨request, hrequest⟩ : ∃ request, encodeFrame backupJson (.backupNow 7) = .ok request :=
    ok_of_toOption (by decide +kernel)
  obtain ⟨trace, w, run, hinternal, result, hresult⟩ :=
    exists_run_done fallsBack_okJson (Nat.zero_lt_succ 4095) hrequest sound_opened
  rcases (request_answered fallsBack_okJson run).2.1 result hresult with
    ⟨ops, hhandled, rfl⟩ | ⟨-, hkill | ⟨e, herror⟩⟩
  · exact ⟨trace, w, ops, run, hhandled, hresult⟩
  · exact (hinternal _ hkill).elim
  · cases hrequest.symm.trans herror

/-- A run that goes on as long as a task can go on ends with the reply. -/
theorem backup_completes :
    WellFounded (fun w' w => ∃ ev : IpcEvent, ev.Internal ∧
      IpcStep backupJson okJson 4096 w ev w') ∧
    ∃ (trace : List IpcEvent) (w : IpcConn) (result : Except CmdError DaemonMsg),
      Run (IpcStep backupJson okJson 4096) (IpcConn.opened backupJson (.backupNow 7)) trace w ∧
      (∀ ev w', ev.Internal → ¬ IpcStep backupJson okJson 4096 w ev w') ∧
      w.client = .done result := by
  have hcompletes : ∀ (trace : List IpcEvent) (w : IpcConn),
      Run (IpcStep backupJson okJson 4096) (IpcConn.opened backupJson (.backupNow 7)) trace w →
      _ ∧ _ := fun trace w run =>
    request_completes fallsBack_okJson (Nat.zero_lt_succ 4095) run
  have hfounded := (hcompletes [] _ Run.nil).1
  -- the last state of a run that is as long as possible
  obtain ⟨w, ⟨trace, run⟩, hlast⟩ := hfounded.has_min
    {w | ∃ trace, Run (IpcStep backupJson okJson 4096)
      (IpcConn.opened backupJson (.backupNow 7)) trace w} ⟨_, [], Run.nil⟩
  have hquiet : ∀ ev w', ev.Internal → ¬ IpcStep backupJson okJson 4096 w ev w' :=
    fun ev w' hinternal step => hlast w' ⟨_, run.snoc step⟩ ⟨ev, hinternal, step⟩
  obtain ⟨result, hresult⟩ := (hcompletes trace w run).2 hquiet
  exact ⟨hfounded, trace, w, result, run, hquiet, hresult⟩

end Example

end Ipc

end Savr
