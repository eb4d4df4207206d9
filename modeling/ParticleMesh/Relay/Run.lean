/-
  ParticleMesh — a relay at work.

  A relay is a node with the loopback as its transport and a script storage with the
  configured scripts. The requests of the node go through the loopback; at regular
  times what has come in there is handed to the node, what was sent is dropped, and the
  counts of the node are reported.

  * `Relay.ofPlan` starts a relay, `Relay.tick` is what a time brings;
  * `Relay.settledStats?` lets time pass until so many particles have ended and none is
    live any more.
-/
import ParticleMesh.Node.Basic
import ParticleMesh.Relay.Start
import ParticleMesh.Transport.Loopback

namespace ParticleMesh

open Transport

/-- A relay. -/
structure Relay where
  node : Node
  transport : Loopback
  /-- How many demands of the node were seen. -/
  seenDemands : Nat
  /-- The time between two reports, in milliseconds. -/
  statsInterval : Nat
  /-- When the counts are reported next. -/
  nextStats : Nat

namespace Relay

/-- The contacts of a plan in a book. -/
def bookOf (contacts : List Contact) : ContactBook := contacts.foldl ContactBook.insert .empty

/-- Stores the configured scripts, each under its place. -/
def withScripts (n : Node) (scripts : List ScriptEntry) : Node :=
  (scripts.mapIdx (fun i s => (i, s))).foldl (fun n e =>
    n.onStorage (·.add e.1 e.2.source (e.2.interval.map Nanos.wait))) n

/-- A relay that starts at a time. -/
def ofPlan (p : Plan) (now : Nat) : Relay where
  node :=
    withScripts
      ((Node.start p.settings.nodeConfig (.ofSecret p.secret) .curve (bookOf p.contacts)
        (.ofRegistry .builtin) now).withStorage now)
      p.settings.scripts
  transport := .empty
  seenDemands := 0
  statsInterval := p.settings.statsInterval.wait
  nextStats := now

/-- Sends the requests that the node has made since the last time, and reports on
    them. -/
def serve (r : Relay) (now : Nat) : Relay :=
  let demands := r.node.pipeline.router.demands
  let requests := (demands.drop r.seenDemands).filterMap fun d => match d with
    | .request _ q => some q
    | .invocation .. => none
  let (reports, transport) := drive Loopback.send requests r.transport
  let node := (requests.zip reports).foldl (fun n e => n.move now (.report e.1.serial e.2)) r.node
  { r with node := node, transport := transport, seenDemands := demands.length }

/-- Lets everything go on that can, the requests included; the number bounds how often
    the node makes new ones. -/
def settle (now : Nat) : Nat → Relay → Relay
  | 0, r => r
  | n + 1, r =>
    let r := { r with node := r.node.settled now }
    if r.node.pipeline.router.demands.length = r.seenDemands then r
    else settle now n (r.serve now)

/-- Hands what has come in to the node, the number bounding it, and drops what was
    sent. -/
def pump (now : Nat) : Nat → Relay → Relay
  | 0, r => { r with transport := r.transport.takeOutbound.2 }
  | n + 1, r =>
    match r.transport.receive with
    | (none, t) => { r with transport := t.takeOutbound.2 }
    | (some (_, bs), t) =>
      pump now n { r with node := (r.node.ingestBytes now bs).2, transport := t }

def forget (r : Relay) : Relay := { r with node := r.node.forget, seenDemands := 0 }

/-- What a time brings: the counts, if it is time to report them, and the relay after
    it. -/
def tick (r : Relay) (now : Nat) : Option Node.Stats × Relay :=
  let r := (settle now Node.patience r).forget
  if r.nextStats ≤ now then
    let r := pump now r.transport.inbound.length r
    (some r.node.stats, { r with nextStats := now + r.statsInterval })
  else (none, r)

/-- Whether so many particles have ended and none is live any more. -/
def isSettled (ended : Nat) (s : Node.Stats) : Bool :=
  decide (ended ≤ s.completed + s.expired + s.faulted) && s.live == 0

/-- Lets time pass, millisecond by millisecond, until the reported counts show that so
    many particles have ended and none is live; the number bounds the time. -/
def settledStats? (ended : Nat) : Nat → Nat → Relay → Option Node.Stats
  | 0, _, _ => none
  | n + 1, now, r =>
    match r.tick now with
    | (some s, r) => if isSettled ended s then some s else settledStats? ended n (now + 1) r
    | (none, r) => settledStats? ended n (now + 1) r

/-- The line in which the counts are reported. -/
def statsLine (s : Node.Stats) : String :=
  "pipeline stats ingested=" ++ toString s.ingested ++ " live=" ++ toString s.live ++
    " awaiting_peer=" ++ toString s.awaitingPeer ++ " completed=" ++ toString s.completed ++
    " expired=" ++ toString s.expired ++ " faulted=" ++ toString s.faulted ++
    " dispatched=" ++ toString s.dispatched ++ " delivery_faults=" ++ toString s.deliveryFaults ++
    " vms_in_use=" ++ toString s.vmsInUse

end Relay

end ParticleMesh
