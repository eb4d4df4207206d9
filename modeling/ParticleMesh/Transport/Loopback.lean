/-
  ParticleMesh — the transport within one process, and the driver of requests.

  The loopback keeps what it is given: sends, until someone takes them, and inbound
  messages, until someone receives them. A peer may be made unreachable, and so may
  an address, which fails the contacts that have it first.

  * `send`, `receive`, `takeOutbound`, `enqueueInbound` and the two reachability
    changes are its operations; `route` moves all sends of one loopback to another;
  * `drive` passes requests to a transport, one after the other, and reports on
    each;
  * `Health` counts what a transport has done.
-/
import ParticleMesh.Route.Delivery
import ParticleMesh.Text.Quoted

namespace ParticleMesh.Transport

/-- What a transport has done so far. -/
structure Health where
  /-- Sends that no one has taken. -/
  queued : Nat
  sent : Nat
  failed : Nat
  received : Nat
  lastError : Option String
deriving DecidableEq

namespace Health

def zero : Health := ⟨0, 0, 0, 0, none⟩

/-- The last failure as it is written in a health text. -/
def errorText : Option String → String
  | none => "None"
  | some e => "Some(" ++ Text.Quoted.text e ++ ")"

def text (h : Health) : String :=
  "TransportHealthSnapshot \x7b outbound_queued: " ++ toString h.queued ++
    ", outbound_send_ok: " ++ toString h.sent ++ ", outbound_send_err: " ++ toString h.failed ++
    ", inbound_received: " ++ toString h.received ++ ", last_error: " ++ errorText h.lastError ++
    " \x7d"

end Health

/-- Sends bytes to a contact, or says why that failed. -/
abbrev Sending (σ : Type) := σ → Contact → Bytes → Except String Unit × σ

/-- The report on an attempt. -/
def reportOf : Except String Unit → Report
  | .ok _ => .delivered
  | .error text => .failed text

/-- Passes requests to a transport in their order, and reports on each. -/
def drive {σ : Type} (send : Sending σ) : List Request → σ → List Report × σ
  | [], t => ([], t)
  | q :: qs, t =>
    let (r, t) := send t q.contact q.bytes
    let (rs, t) := drive send qs t
    (reportOf r :: rs, t)

/-- A transport that sends nothing. -/
def mute : Sending Unit := fun t _ bs =>
  (.error ("mute after " ++ toString bs.length ++ " bytes"), t)

/-- A transport within one process. -/
structure Loopback where
  /-- Messages that wait to be received, with their senders, oldest first. -/
  inbound : List (PeerId × Bytes)
  /-- Sends that wait to be taken, oldest first. -/
  outbound : List (Contact × Bytes)
  /-- The peers that cannot be reached. -/
  unreachablePeers : List PeerId
  /-- The addresses that cannot be reached. -/
  unreachableAddresses : List String
  sent : Nat
  failed : Nat
  received : Nat
  lastError : Option String

namespace Loopback

/-- Nothing waits, and everyone can be reached. -/
def empty : Loopback := ⟨[], [], [], [], 0, 0, 0, none⟩

/-- The failure of a send to a contact that cannot be reached. -/
def unreachable : String := "peer unreachable"

/-- Whether the peer and the first address of a contact can be reached. -/
def reaches (t : Loopback) (c : Contact) : Bool :=
  decide (c.peer ∉ t.unreachablePeers) &&
    match c.addresses with
    | [] => true
    | a :: _ => decide (a ∉ t.unreachableAddresses)

/-- Sends bytes to a contact. -/
def send : Sending Loopback := fun t c bs =>
  if t.reaches c then
    (.ok (), { t with outbound := t.outbound ++ [(c, bs)], sent := t.sent + 1 })
  else (.error unreachable, { t with failed := t.failed + 1, lastError := some unreachable })

/-- Takes out the oldest message that waits, with its sender. -/
def receive (t : Loopback) : Option (PeerId × Bytes) × Loopback :=
  match t.inbound with
  | [] => (none, t)
  | m :: ms => (some m, { t with inbound := ms, received := t.received + 1 })

/-- Adds a message from a peer. -/
def enqueueInbound (t : Loopback) (from_ : PeerId) (bs : Bytes) : Loopback :=
  { t with inbound := t.inbound ++ [(from_, bs)] }

/-- Takes out all sends that wait. -/
def takeOutbound (t : Loopback) : List (Contact × Bytes) × Loopback :=
  (t.outbound, { t with outbound := [] })

/-- Makes a peer reachable or not. -/
def setPeerReachable (t : Loopback) (p : PeerId) (reachable : Bool) : Loopback :=
  let others := t.unreachablePeers.filter (· ≠ p)
  { t with unreachablePeers := if reachable then others else p :: others }

/-- Makes an address reachable or not. -/
def setAddressReachable (t : Loopback) (a : String) (reachable : Bool) : Loopback :=
  let others := t.unreachableAddresses.filter (· ≠ a)
  { t with unreachableAddresses := if reachable then others else a :: others }

/-- What was done so far. -/
def health (t : Loopback) : Health :=
  ⟨t.outbound.length, t.sent, t.failed, t.received, t.lastError⟩

/-- Adds the given sends as messages from a peer. -/
def deliverAll (from_ : PeerId) (sends : List (Contact × Bytes)) (t : Loopback) : Loopback :=
  sends.foldl (fun t s => t.enqueueInbound from_ s.2) t

/-- Moves all sends of one loopback to another as messages from a peer, and gives
    their number. -/
def route (source target : Loopback) (from_ : PeerId) : Nat × Loopback × Loopback :=
  let (sends, source) := source.takeOutbound
  (sends.length, source, deliverAll from_ sends target)

end Loopback

end ParticleMesh.Transport
