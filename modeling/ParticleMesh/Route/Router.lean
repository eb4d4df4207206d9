/-
  ParticleMesh — routing the effects of a step.

  A send goes to the peer it is for if a contact is known: the one the peer is
  connected by, then those of the contact book. Else it waits for the peer to
  connect. A call goes to the local services, and its result comes back later.

  Routing is cut into atomic actions, `Routing`, so that those of several threads
  may come in any order. `Router.act` does one action and says which ones follow.

  * `outbound` and `invocations` are what the router has asked of transport and
    services so far;
  * `feedback` are the results that wait to be taken back into the pipeline;
  * `endCall_cases`, `report_cases` and `wake_cases` say what becomes of a call and of
    a delivery.
-/
import ParticleMesh.Particle.Signed
import ParticleMesh.Pipeline.Awaited
import ParticleMesh.Queue.Waiting
import ParticleMesh.Route.Book
import ParticleMesh.Route.Delivery
import ParticleMesh.Service.Basic

namespace ParticleMesh

/-- A service call under way. -/
structure RunningCall where
  serial : Nat
  /-- The particle it is made for. -/
  particle : ParticleId
  /-- The peer that started the particle. -/
  origin : PeerId
  request : CallRequest
deriving Inhabited

/-- A result that comes back into the pipeline. -/
inductive Feedback where
  /-- The result of the service call of a number. -/
  | call (serial : Nat) (particle : ParticleId) (call : CallId) (result : CallResult)
  /-- A send that was given up. -/
  | fault (particle : ParticleId) (f : DeliveryFault)

/-- What the router asks of the world. -/
inductive Demand where
  | request (now : Nat) (r : Request)
  | invocation (now : Nat) (c : RunningCall)

/-- A change of a connection. -/
inductive ConnectionEvent where
  /-- The peer is connected by a contact. -/
  | connected (c : Contact)
  /-- The peer is not connected any more. -/
  | disconnected (p : PeerId)
deriving DecidableEq

/-- An atomic action of the router. -/
inductive Routing where
  /-- Look for contacts of a send's target. -/
  | route (s : Send)
  /-- Make the first request of a send. -/
  | offer (s : Send) (contacts : List Contact)
  /-- Let a send wait for its target. -/
  | await (s : Send)
  /-- See whether a peer has connected meanwhile. -/
  | recheck (p : PeerId)
  /-- Route again what waits for a peer. -/
  | flush (p : PeerId)
  /-- Take in a change of a connection. -/
  | connection (e : ConnectionEvent)
  /-- Give up the waiting sends of particles that have ended by a time. -/
  | expire (time : Nat)

/-- The state of the router. -/
structure Router where
  host : PeerId
  /-- How often and how soon a send is tried again. -/
  policy : RoutePolicy
  book : ContactBook
  connected : Assoc PeerId Contact
  /-- The sends that wait for a peer. -/
  waiting : WaitingQueues PeerId Awaited
  isOpen : Bool
  /-- What was asked of transport and services, oldest first. -/
  demands : List Demand
  /-- The number of the next request, delivery or call. -/
  nextSerial : Nat
  deliveries : List Delivery
  calls : List RunningCall
  /-- The results that wait to be taken back, oldest first. -/
  feedback : List Feedback
  dispatched : Nat
  serviceCalls : Nat

namespace Router

/-- The requests made so far. -/
def outbound (r : Router) : List Request :=
  r.demands.filterMap (fun d => match d with
    | .request _ q => some q
    | .invocation .. => none)

/-- The calls made so far. -/
def invocations (r : Router) : List RunningCall :=
  r.demands.filterMap (fun d => match d with
    | .request .. => none
    | .invocation _ c => some c)

/-- The usable contacts of a peer: the one it is connected by, then those of the
    contact book, each once. -/
def contactsFor (r : Router) (p : PeerId) : List Contact :=
  let listed := (r.book.resolve p).foldl (fun cs c => if c ∈ cs then cs else cs ++ [c])
    (r.connected.get? p).toList
  listed.filter (fun c => !c.addresses.isEmpty)

/-- Lets a result come back. -/
def feed (r : Router) (f : Feedback) : Router := { r with feedback := r.feedback ++ [f] }

def putOut (r : Router) (now : Nat) (q : Request) : Router :=
  { r with demands := r.demands ++ [.request now q] }

/-- Makes the first request of a send, which starts its delivery. -/
def offer (r : Router) (now : Nat) (s : Send) (contacts : List Contact) : Router :=
  let p := s.particle
  match p.encode? with
  | .error f => r.feed (.fault p.id ⟨s.target, .encode f, 0⟩)
  | .ok bytes =>
    if r.isOpen then
      let n := r.nextSerial
      let d : Delivery :=
        ⟨n, p.id, p.deadline, s.target, contacts, bytes, 1, .requested n⟩
      let r := r.putOut now ⟨n, p.id, contacts.headD default, bytes⟩
      { r with nextSerial := n + 1, deliveries := r.deliveries ++ [d] }
    else r.feed (.fault p.id ⟨s.target, .channelClosed, 1⟩)

/-- Takes in a change of a connection. -/
def onConnection (r : Router) : ConnectionEvent → Router
  | .connected c => { r with connected := r.connected.put c.peer c }
  | .disconnected p => { r with connected := r.connected.erase p }

/-- Gives up the waiting sends of particles that have ended by a time. -/
def expire (r : Router) (time : Nat) : Router :=
  let (gone, waiting) := r.waiting.removeWhere (fun _ a => a.isExpired time)
  { r with
    waiting := waiting
    feedback := r.feedback ++
      gone.map (fun e => .fault e.2.particle.id ⟨e.1, .noRoute, 0⟩) }

/-- Does one action, and gives those that follow it. A send to the local peer is
    dropped. -/
def act (r : Router) (now : Nat) : Routing → Router × List Routing
  | .route s =>
    if s.target = r.host then (r, [])
    else
      match r.contactsFor s.target with
      | [] => (r, [.await s])
      | contacts => (r, [.offer s contacts])
  | .offer s contacts => (r.offer now s contacts, [])
  | .await s =>
    let waiting := r.waiting.enqueue s.target ⟨s.particle, .empty, .peer s.target⟩
    ({ r with waiting := waiting }, [.recheck s.target])
  | .recheck p => (r, if r.connected.has p then [.flush p] else [])
  | .flush p =>
    let (taken, waiting) := r.waiting.take p
    ({ r with waiting := waiting }, taken.map (fun a => .route ⟨a.particle, p⟩))
  | .connection e =>
    (r.onConnection e,
      match e with
      | .connected c => [.flush c.peer]
      | .disconnected _ => [])
  | .expire time => (r.expire time, [])

/-! ## Calls and deliveries under way -/

/-- A call on behalf of a particle, under the next number. -/
def nextCall (r : Router) (p : Particle) (c : CallRequest) : RunningCall :=
  ⟨r.nextSerial, p.id, p.origin, c⟩

/-- Calls a service on behalf of a particle. -/
def invoke (r : Router) (now : Nat) (p : Particle) (c : CallRequest) : Router :=
  let call := r.nextCall p c
  { r with
    nextSerial := r.nextSerial + 1
    serviceCalls := r.serviceCalls + 1
    demands := r.demands ++ [.invocation now call]
    calls := r.calls ++ [call] }

/-- The context in which a call is answered. -/
def context (r : Router) (now : Nat) (c : RunningCall) : Service.Context :=
  ⟨c.particle, c.origin, r.host, now⟩

/-- Ends a call under way with its answer. -/
def endCall (r : Router) (serial : Nat) (answer : Service.Answer) : Router :=
  match r.calls.find? (fun c => c.serial = serial) with
  | none => r
  | some c =>
    let result : CallResult := answer.mapError Service.CallError.message
    { r with calls := r.calls.filter (fun c => c.serial ≠ serial) }.feed
      (.call c.serial c.particle c.request.call result)

/-- Goes on with a delivery. -/
def proceed (r : Router) (now : Nat) (d : Delivery) (next : Delivery.Next) : Router :=
  let others := r.deliveries.filter (fun e => e.serial ≠ d.serial)
  match next with
  | .rest d' =>
    { r with deliveries := r.deliveries.map (fun e => if e.serial = d.serial then d' else e) }
  | .delivered => { r with deliveries := others, dispatched := r.dispatched + 1 }
  | .fault f => { r with deliveries := others }.feed (.fault d.particle f)
  | .attempt contact =>
    let d := { d with attempts := d.attempts + 1 }
    if r.isOpen then
      let n := r.nextSerial
      let d' := { d with phase := .requested n }
      let r := r.putOut now ⟨n, d.particle, contact, d.bytes⟩
      { r with
        nextSerial := n + 1
        deliveries := r.deliveries.map (fun e => if e.serial = d.serial then d' else e) }
    else
      { r with deliveries := others }.feed
        (.fault d.particle ⟨d.target, .channelClosed, d.attempts⟩)

/-- Whether a delivery waits for the report on a request. -/
def awaitsReport (request : Nat) (d : Delivery) : Bool := d.phase = .requested request

/-- Takes in the report on a request. -/
def report (r : Router) (now : Nat) (request : Nat) (answer : Report) : Router :=
  match r.deliveries.find? (awaitsReport request) with
  | none => r
  | some d => r.proceed now d (d.report r.policy now answer)

/-- Ends the rest of a delivery. -/
def wake (r : Router) (now : Nat) (serial : Nat) : Router :=
  match r.deliveries.find? (fun d => d.serial = serial) with
  | none => r
  | some d =>
    match d.phase with
    | .requested _ => r
    | .resting _ failure => r.proceed now d (d.wake now failure)

/-- The transport takes no more requests. -/
def close (r : Router) : Router := { r with isOpen := false }

/-! ## What ends calls, and what lets deliveries go on -/

/-- The end of a call that is under way feeds back its result; that of another one is nothing. -/
theorem endCall_cases (r : Router) (serial : Nat) (answer : Service.Answer) :
    r.endCall serial answer = r ∨
      ∃ c ∈ r.calls, c.serial = serial ∧ r.endCall serial answer =
        feed { r with calls := r.calls.filter (fun c => c.serial ≠ serial) }
          (.call c.serial c.particle c.request.call
            (answer.mapError Service.CallError.message)) := by
  cases hc : r.calls.find? (fun c => c.serial = serial) with
  | none => exact .inl (by simp only [endCall, hc])
  | some c =>
    have hs : c.serial = serial := by simpa using List.find?_some hc
    exact .inr ⟨c, List.mem_of_find?_eq_some hc, hs, by simp only [endCall, hc]⟩

/-- A report lets the delivery go on that waits for it, if there is one. -/
theorem report_cases (r : Router) (now request : Nat) (answer : Report) :
    r.report now request answer = r ∨
      ∃ d ∈ r.deliveries, awaitsReport request d = true ∧
        r.report now request answer = r.proceed now d (d.report r.policy now answer) := by
  cases hd : r.deliveries.find? (awaitsReport request) with
  | none => exact .inl (by simp only [report, hd])
  | some d =>
    exact .inr ⟨d, List.mem_of_find?_eq_some hd, List.find?_some hd, by simp only [report, hd]⟩

/-- The end of a rest lets the delivery go on that rests, if it does. -/
theorem wake_cases (r : Router) (now serial : Nat) :
    r.wake now serial = r ∨
      ∃ d ∈ r.deliveries, d.serial = serial ∧ ∃ time failure,
        d.phase = .resting time failure ∧
          r.wake now serial = r.proceed now d (d.wake now failure) := by
  cases hd : r.deliveries.find? (fun d => d.serial = serial) with
  | none => exact .inl (by simp only [wake, hd])
  | some d =>
    cases hp : d.phase with
    | requested n => exact .inl (by simp only [wake, hd, hp])
    | resting time failure =>
      have hs : d.serial = serial := by simpa using List.find?_some hd
      exact .inr ⟨d, List.mem_of_find?_eq_some hd, hs, time, failure, hp,
        by simp only [wake, hd, hp]⟩

end Router

end ParticleMesh
