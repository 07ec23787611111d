import Savr.Lib.Run
import Savr.Server.Api

/-!
# The presence hub

`savr-server/src/hub.rs` and the life of a socket in `savr-server/src/ws.rs`: a
socket registers its channel when it opens and again on every `Hello`, and
deregisters when its loop ends.  The hub keeps one channel for each device, under
the device's id, so a socket that closes late takes the registration of its
successor with it.

`connected_device_reachable_iff` says that this is the only way a device with an
open socket is cut off from the pushes.
-/

namespace Savr

open LabelledRun

/-- The channel of one socket. -/
abbrev SocketId := ℕ

/-- An entry of the map: where the messages of a device go. -/
structure HubEntry where
  account : AccountId
  device : DeviceId
  sender : SocketId
  deriving DecidableEq, Repr

/-- The entry of this device. -/
def HubEntry.isFor (account : AccountId) (device : DeviceId) (e : HubEntry) : Bool :=
  e.account = account ∧ e.device = device

theorem HubEntry.isFor_iff {account : AccountId} {device : DeviceId} {e : HubEntry} :
    e.isFor account device = true ↔ (e.account, e.device) = (account, device) := by
  simp [isFor]

/-- `Hub`: a channel for each account and device. -/
structure Hub where
  entries : List HubEntry
  unique : (entries.map fun e => (e.account, e.device)).Nodup

namespace Hub

/-- `Hub::new`. -/
def new : Hub where
  entries := []
  unique := List.nodup_nil

/-- Where the messages of a device go, if it is registered. -/
def sender (h : Hub) (account : AccountId) (device : DeviceId) : Option SocketId :=
  (h.entries.find? (HubEntry.isFor account device)).map HubEntry.sender

/-- `Hub::deregister`: it takes away whatever is registered for the device. -/
def deregister (h : Hub) (account : AccountId) (device : DeviceId) : Hub where
  entries := h.entries.filter fun e => !e.isFor account device
  unique := h.unique.sublist (List.filter_sublist.map _)

/-- Register (or replace) a device's outbound channel. There is at most one channel for a
device, so the one before is dropped. -/
def register (h : Hub) (account : AccountId) (device : DeviceId) (tx : SocketId) : Hub where
  entries := (h.deregister account device).entries ++ [⟨account, device, tx⟩]
  unique := by
    rw [List.map_append, List.nodup_append]
    refine ⟨(h.deregister account device).unique, by simp, ?_⟩
    rintro key hkey _ hnew rfl
    obtain rfl := List.mem_singleton.mp hnew
    obtain ⟨e, he, heq⟩ := List.mem_map.mp hkey
    obtain ⟨-, hother⟩ := List.mem_filter.mp he
    simp [HubEntry.isFor, Prod.mk.inj heq] at hother

/-- The channels a push goes to. -/
def recipients (h : Hub) (b : Broadcast) : List SocketId :=
  (h.entries.filter fun e => b.reaches e.account e.device).map HubEntry.sender

/-- Fan a push to its channels. -/
def broadcast (h : Hub) (b : Broadcast) (queues : SocketId → List ServerMsg) :
    SocketId → List ServerMsg :=
  fun id => queues id ++ ((h.recipients b).filter fun r => r = id).map fun _ => b.msg

/-- Fan `msg` to every device on `account` except `except`. -/
def broadcastExcept (h : Hub) (account : AccountId) (except : DeviceId) (msg : ServerMsg) :
    (SocketId → List ServerMsg) → SocketId → List ServerMsg :=
  h.broadcast { accountId := account, except := some except, msg }

/-- Fan `msg` to every device on the account. -/
def broadcastAccount (h : Hub) (account : AccountId) (msg : ServerMsg) :
    (SocketId → List ServerMsg) → SocketId → List ServerMsg :=
  h.broadcast { accountId := account, except := none, msg }

variable {h : Hub} {account account' : AccountId} {device device' : DeviceId} {tx : SocketId}

theorem sender_deregister : (h.deregister account device).sender account device = none := by
  simp [sender, deregister]

/-- Another device stays registered. -/
theorem sender_deregister_of_ne (hne : (account', device') ≠ (account, device)) :
    (h.deregister account device).sender account' device' = h.sender account' device' := by
  rw [sender, deregister, List.find?_filter, sender]
  have heq : (fun e : HubEntry => decide ((!e.isFor account device) = true ∧
      e.isFor account' device' = true)) = HubEntry.isFor account' device' := by
    funext e
    cases he : e.isFor account' device' with
    | false => simp
    | true =>
        have hother : e.isFor account device = false := by
          rw [← Bool.not_eq_true, HubEntry.isFor_iff, HubEntry.isFor_iff.mp he]
          exact hne
        simp [hother]
  rw [heq]

theorem sender_register : (h.register account device tx).sender account device = some tx := by
  have hnone : (h.deregister account device).entries.find? (HubEntry.isFor account device) =
      none := Option.map_eq_none_iff.mp sender_deregister
  rw [sender, register, List.find?_append, hnone]
  simp [HubEntry.isFor]

/-- A registration changes the channel of its own device alone. -/
theorem sender_register_of_ne (hne : (account', device') ≠ (account, device)) :
    (h.register account device tx).sender account' device' = h.sender account' device' := by
  have hother : HubEntry.isFor account' device' ⟨account, device, tx⟩ = false := by
    rw [← Bool.not_eq_true, HubEntry.isFor_iff]
    exact fun h => hne h.symm
  have hold : (h.deregister account device).sender account' device' = h.sender account' device' :=
    sender_deregister_of_ne hne
  rw [← hold, sender, register, List.find?_append, sender]
  simp [hother]

/-- **A registered device gets the pushes meant for it.** -/
theorem broadcast_of_sender (hsender : h.sender account device = some tx) {b : Broadcast}
    (reaches : b.reaches account device = true) (queues : SocketId → List ServerMsg) :
    ∃ more, h.broadcast b queues tx = queues tx ++ b.msg :: more := by
  obtain ⟨e, hfind, rfl⟩ := Option.map_eq_some_iff.mp hsender
  have hkey := Prod.mk.inj (HubEntry.isFor_iff.mp (List.find?_some hfind))
  have hmem : e.sender ∈ (h.recipients b).filter fun r => r = e.sender := by
    refine List.mem_filter.mpr ⟨List.mem_map.mpr ⟨e, ?_, rfl⟩, by simp⟩
    exact List.mem_filter.mpr
      ⟨List.mem_of_find?_eq_some hfind, by rw [hkey.1, hkey.2]; exact reaches⟩
  cases hlist : (h.recipients b).filter fun r => decide (r = e.sender) with
  | nil =>
      rw [hlist] at hmem
      cases hmem
  | cons r rs => exact ⟨rs.map fun _ => b.msg, by simp [broadcast, hlist]⟩

/-- A push only adds to the queues. -/
theorem mem_broadcast {b : Broadcast} {queues : SocketId → List ServerMsg} {msg : ServerMsg}
    (hmsg : msg ∈ queues tx) : msg ∈ h.broadcast b queues tx :=
  List.mem_append_left _ hmsg

end Hub

/-! ### Sockets -/

/-- An open socket, under the account and device its token names. -/
structure Socket where
  id : SocketId
  account : AccountId
  device : DeviceId
  deriving DecidableEq, Repr

/-- The hub, the open sockets and what is queued for them. -/
structure HubWorld where
  hub : Hub
  sockets : List Socket
  queues : SocketId → List ServerMsg

/-- What happens next to a socket or the hub. A device that reconnects may have two sockets
for a while. -/
inductive HubEvent
  /-- The socket opens and registers up front. -/
  | opens (s : Socket)
  /-- A `Hello` re-affirms the registration. -/
  | hello (s : Socket)
  /-- The loop of the socket ends, for whatever reason. -/
  | closes (s : Socket)
  | push (b : Broadcast)
  deriving DecidableEq, Repr

namespace HubWorld

/-- Sockets have ids of their own, and only open ones speak and close. -/
def Enabled (w : HubWorld) : HubEvent → Prop
  | .opens s => ∀ t ∈ w.sockets, t.id ≠ s.id
  | .hello s => s ∈ w.sockets
  | .closes s => s ∈ w.sockets
  | .push _ => True

instance (w : HubWorld) : ∀ ev, Decidable (w.Enabled ev)
  | .opens s => inferInstanceAs (Decidable (∀ t ∈ w.sockets, t.id ≠ s.id))
  | .hello s => inferInstanceAs (Decidable (s ∈ w.sockets))
  | .closes s => inferInstanceAs (Decidable (s ∈ w.sockets))
  | .push _ => isTrue trivial

/-- The state after an event. A socket that closes takes the registration of its device away,
also one that a newer socket has made. -/
def next (w : HubWorld) : HubEvent → HubWorld
  | .opens s =>
      { w with
        hub := w.hub.register s.account s.device s.id
        sockets := w.sockets ++ [s] }
  | .hello s => { w with hub := w.hub.register s.account s.device s.id }
  | .closes s =>
      { w with
        hub := w.hub.deregister s.account s.device
        sockets := w.sockets.filter fun t => t ≠ s }
  | .push b => { w with queues := w.hub.broadcast b w.queues }

/-- No socket has been opened. -/
def new : HubWorld where
  hub := Hub.new
  sockets := []
  queues := fun _ => []

/-- Every device with an open socket is mapped to one of its open sockets, and every
push meant for the device is enqueued there. -/
def Reachable (w : HubWorld) : Prop :=
  ∀ s ∈ w.sockets, ∃ t ∈ w.sockets, t.account = s.account ∧ t.device = s.device ∧
    w.hub.sender s.account s.device = some t.id ∧
    ∀ b : Broadcast, b.reaches s.account s.device = true →
      ∃ more, w.hub.broadcast b w.queues t.id = w.queues t.id ++ b.msg :: more

/-- A socket closes only as the last open one of its device. -/
def SoleClose (w : HubWorld) : HubEvent → Prop
  | .closes s => ∀ t ∈ w.sockets, t.account = s.account → t.device = s.device → t = s
  | _ => True

instance (w : HubWorld) : ∀ ev, Decidable (w.SoleClose ev)
  | .closes s => inferInstanceAs (Decidable (∀ t ∈ w.sockets, t.account = s.account →
      t.device = s.device → t = s))
  | .opens _ | .hello _ | .push _ => isTrue trivial

variable {w w' : HubWorld}

/-- Only the registration matters: the pushes follow. -/
theorem reachable_iff : w.Reachable ↔ ∀ s ∈ w.sockets, ∃ t ∈ w.sockets,
    t.account = s.account ∧ t.device = s.device ∧
      w.hub.sender s.account s.device = some t.id := by
  constructor
  · intro h s hs
    obtain ⟨t, ht, hacc, hdev, hsender, -⟩ := h s hs
    exact ⟨t, ht, hacc, hdev, hsender⟩
  · intro h s hs
    obtain ⟨t, ht, hacc, hdev, hsender⟩ := h s hs
    exact ⟨t, ht, hacc, hdev, hsender, fun b hb => Hub.broadcast_of_sender hsender hb w.queues⟩

/-- Registering an open socket keeps every device reachable. -/
theorem Reachable.register (h : w.Reachable) {s : Socket} {sockets : List Socket}
    (hs : s ∈ sockets) (hold : ∀ t ∈ w.sockets, t ∈ sockets)
    (hnew : ∀ t ∈ sockets, t = s ∨ t ∈ w.sockets) :
    Reachable { w with hub := w.hub.register s.account s.device s.id, sockets } := by
  rw [reachable_iff] at h ⊢
  intro t ht
  by_cases hsame : (t.account, t.device) = (s.account, s.device)
  · obtain ⟨hacc, hdev⟩ := Prod.mk.inj hsame
    exact ⟨s, hs, hacc.symm, hdev.symm, by rw [hacc, hdev]; exact Hub.sender_register⟩
  · have htold : t ∈ w.sockets := (hnew t ht).resolve_left fun heq => hsame (by rw [heq])
    obtain ⟨u, hu, hacc, hdev, hsender⟩ := h t htold
    exact ⟨u, hold u hu, hacc, hdev, by rw [Hub.sender_register_of_ne hsame]; exact hsender⟩

/-- From a state in which every device is reachable, a step keeps it so exactly when it
does not close one of several sockets of a device. -/
theorem Reachable.step_iff (h : w.Reachable) {ev : HubEvent}
    (step : guarded Enabled next w ev w') : w'.Reachable ↔ w.SoleClose ev := by
  obtain ⟨enabled, rfl⟩ := step
  cases ev with
  | opens s =>
      refine iff_of_true (h.register (by simp) (fun t ht => List.mem_append_left _ ht) ?_) trivial
      intro t ht
      rcases List.mem_append.mp ht with ht | ht
      · exact Or.inr ht
      · exact Or.inl (List.mem_singleton.mp ht)
  | hello s =>
      exact iff_of_true (h.register enabled (fun t ht => ht) fun t ht => Or.inr ht) trivial
  | push b =>
      rw [reachable_iff] at h
      exact iff_of_true (reachable_iff.mpr h) trivial
  | closes s =>
      rw [reachable_iff] at h ⊢
      constructor
      · -- another socket of the device would be left without a registration
        intro hafter t ht hacc hdev
        by_contra hne
        obtain ⟨u, -, -, -, hsender⟩ := hafter t
          (List.mem_filter.mpr ⟨ht, by simpa using hne⟩)
        rw [hacc, hdev, next, Hub.sender_deregister] at hsender
        cases hsender
      · intro sole t ht
        obtain ⟨ht, hne⟩ := List.mem_filter.mp ht
        have hother : (t.account, t.device) ≠ (s.account, s.device) := by
          intro hsame
          obtain ⟨hacc, hdev⟩ := Prod.mk.inj hsame
          simp [sole t ht hacc hdev] at hne
        obtain ⟨u, hu, hacc, hdev, hsender⟩ := h t ht
        refine ⟨u, List.mem_filter.mpr ⟨hu, ?_⟩, hacc, hdev, ?_⟩
        · rw [decide_eq_true_eq]
          rintro rfl
          exact hother (by rw [hacc, hdev])
        · rw [next, Hub.sender_deregister_of_ne hother]
          exact hsender

end HubWorld

/-- One step of one socket, or a push. -/
def HubStep : HubWorld → HubEvent → HubWorld → Prop :=
  guarded HubWorld.Enabled HubWorld.next

/-- **When a connected device stays reachable.**  For every interleaving of opening,
`Hello` handling and closing of any sockets, and of pushes: the hub maps every device
with an open socket to one of its open sockets, in every state of the run, if and only
if each socket that closes in the run is then the only open one of its device. -/
theorem connected_device_reachable_iff {trace : List HubEvent} {w : HubWorld} :
    Run (into HubStep HubWorld.Reachable) HubWorld.new trace w ↔
      Run (under HubStep HubWorld.SoleClose) HubWorld.new trace w := by
  refine Run.into_iff_under ?_ fun _ _ _ h step => h.step_iff step
  intro s hs
  cases hs

/-- A device reconnects before its old socket is noticed dead; then that one closes. -/
def reconnectThenClose : List HubEvent :=
  [.opens ⟨1, 1, 21⟩, .opens ⟨2, 1, 21⟩, .hello ⟨2, 1, 21⟩, .closes ⟨1, 1, 21⟩]

/-- The new socket is open, and the hub does not know the device. -/
theorem late_close_cuts_off_device :
    Run HubStep HubWorld.new reconnectThenClose
        (reconnectThenClose.foldl HubWorld.next HubWorld.new) ∧
      (⟨2, 1, 21⟩ : Socket) ∈
        (reconnectThenClose.foldl HubWorld.next HubWorld.new).sockets ∧
      (reconnectThenClose.foldl HubWorld.next HubWorld.new).hub.sender 1 21 = none :=
  ⟨Run.of_enabled (by decide), by decide, by decide⟩

end Savr
