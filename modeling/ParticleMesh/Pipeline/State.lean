/-
  ParticleMesh — the pipeline of a node: its state and the operations on it.

  Particles that wait for an interpreter stand in lanes, one for each origin. The
  ring holds the origins whose lane is not empty, each once, and the lanes are
  served in turn. Particles that wait for the result of a call stand in queues of
  their own. The table holds the live particles, the records those that have ended.

  Every operation here is atomic. `Pipeline/Activity` puts them together.

  * `take` takes a particle in, or says why not;
  * `enqueue`, `selectNext`, `park`, `onCallResult`, `sweep` move particles;
  * `finish` ends one.
-/
import ParticleMesh.Route.Router
import ParticleMesh.Vm.Pool
import ParticleMesh.Vm.Fault

namespace ParticleMesh

/-- A live particle. -/
structure Entry where
  stage : Stage
  /-- Results of calls that have come since it was last queued. -/
  inbox : CallResults
  /-- The calls already made for it. -/
  issued : List CallId
  /-- Its sends that were given up, in order. -/
  faults : List DeliveryFault
  deadline : Nat

/-- Counts of what has happened. -/
structure Counters where
  ingested : Nat
  /-- Particles that were live or had ended already. -/
  duplicates : Nat
  rejected : Nat
  vmRuns : Nat
  completed : Nat
  expired : Nat
  faulted : Nat
  deliveryFaults : Nat
deriving DecidableEq, Inhabited

def Counters.zero : Counters := ⟨0, 0, 0, 0, 0, 0, 0, 0⟩

/-- Counts a particle that ends. -/
def Counters.add (c : Counters) : Verdict → Counters
  | .completed => { c with completed := c.completed + 1 }
  | .expired => { c with expired := c.expired + 1 }
  | .faulted _ => { c with faulted := c.faulted + 1 }

/-- What happens to particles, for whoever watches. -/
inductive Happening where
  | taken (q : Particle)
  /-- A step has started at a time; its particle was popped for it before. -/
  | started (now : Nat) (a : Awaited)
  /-- A service was called for a step. -/
  | invoked (c : RunningCall)
  /-- A send of a step was given to the router. -/
  | routed (s : Send)
  /-- The result of a call was taken back. -/
  | answered (serial : Nat) (id : ParticleId) (c : CallId) (r : CallResult)
  | finished (id : ParticleId) (v : Verdict)
  | undelivered (id : ParticleId) (f : DeliveryFault)

/-- What becomes of a particle that keeps the rules. -/
inductive Ingested where
  | accepted
  | inFlight
  | alreadyFinished (v : Verdict)
deriving DecidableEq

/-- The state of the pipeline. -/
structure Pipeline where
  verifier : Verifier
  pool : VmPool
  table : Assoc ParticleId Entry
  /-- The origins whose lane is not empty, the next to be served first. -/
  ring : List PeerId
  /-- The particles that wait for an interpreter, by origin. -/
  lanes : WaitingQueues PeerId Awaited
  /-- The particles that wait for the result of a call. -/
  callWaiters : WaitingQueues (ParticleId × CallId) Awaited
  router : Router
  /-- The records of particles that have ended. -/
  records : Records
  counters : Counters
  journal : List Happening

namespace Pipeline

def note (p : Pipeline) (h : Happening) : Pipeline := { p with journal := p.journal ++ [h] }

def count (p : Pipeline) (f : Counters → Counters) : Pipeline :=
  { p with counters := f p.counters }

/-- Sets the stage of a live particle. -/
def setStage (p : Pipeline) (id : ParticleId) (s : Stage) : Pipeline :=
  { p with table := p.table.modify id (fun e => { e with stage := s }) }

/-! ## Ends -/

def finish (p : Pipeline) (id : ParticleId) (v : Verdict) : Pipeline :=
  match p.table.get? id with
  | none => p
  | some e =>
    { p with
      table := p.table.erase id
      counters := p.counters.add v
      records := p.records.put id ⟨v, e.faults, e.deadline⟩
      journal := p.journal ++ [.finished id v] }

/-! ## Lanes -/

/-- Queues a particle for an interpreter. -/
def enqueue (p : Pipeline) (a : Awaited) : Pipeline :=
  let lane := a.particle.origin
  let lanes := p.lanes.enqueue lane { a with reason := .vm }
  { p.setStage a.particle.id .awaitingVm with
    lanes := lanes
    ring := if lanes.lengthOf lane = 1 then p.ring ++ [lane] else p.ring }

/-- Takes the oldest particle of the next lane, and serves that lane last if it has
    more. -/
def popLane (p : Pipeline) : Option (Option Awaited × Pipeline) :=
  match p.ring with
  | [] => none
  | lane :: ring =>
    match p.lanes.popFront lane with
    | (none, _) => some (none, { p with ring := ring })
    | (some a, lanes) =>
      some (some a,
        { p with
          lanes := lanes
          ring := if lanes.containsKey lane then ring ++ [lane] else ring })

/-- Marks a particle as running and hands it the results in its inbox. -/
def startRunning (p : Pipeline) (a : Awaited) (e : Entry) : Awaited × Pipeline :=
  (a.receive e.inbox,
    { p with
      table := p.table.modify a.particle.id
        (fun e => { e with stage := .running, inbox := .empty }) })

/-- Takes particles from the lanes until one can run; those that have ended are
    finished. The number bounds the particles taken. -/
def selectFrom (now : Nat) : Nat → Pipeline → Option Awaited × Pipeline
  | 0, p => (none, p)
  | n + 1, p =>
    match p.popLane with
    | none => (none, p)
    | some (none, p) => selectFrom now n p
    | some (some a, p) =>
      if a.isExpired now then selectFrom now n (p.finish a.particle.id .expired)
      else
        match p.table.get? a.particle.id with
        | none => selectFrom now n p
        | some e =>
          let (a, p) := p.startRunning a e
          (some a, p)

/-- The next particle that can run. -/
def selectNext (p : Pipeline) (now : Nat) : Option Awaited × Pipeline :=
  selectFrom now (p.ring.length + p.lanes.size + 1) p

/-- Whether a lane is not empty. -/
def hasRunnable (p : Pipeline) : Bool := !p.ring.isEmpty

/-! ## Taking particles in -/

/-- Takes in a particle that keeps the rules. Its identifier must be new, and its
    deadline ahead. -/
def take (p : Pipeline) (now : Nat) (q : Particle) :
    Except Particle.Refusal Ingested × Pipeline :=
  if p.table.has q.id then
    (.ok .inFlight, p.count fun c => { c with duplicates := c.duplicates + 1 })
  else
    let (rec?, records) := p.records.lookup q.id
    let p := { p with records := records }
    match rec? with
    | some rec =>
      (.ok (.alreadyFinished rec.verdict),
        p.count fun c => { c with duplicates := c.duplicates + 1 })
    | none =>
      if q.isExpired now then
        (.error (.expired q.id q.deadline now),
          p.count fun c => { c with rejected := c.rejected + 1 })
      else
        let e : Entry := ⟨.queued, .empty, [], [], q.deadline⟩
        let p := { p with table := p.table.put q.id e }
        let p := p.count fun c => { c with ingested := c.ingested + 1 }
        (.ok .accepted, (p.note (.taken q)).enqueue (.start q))

/-- Takes in a particle: it must keep the schema and be signed by its origin. -/
def ingest (p : Pipeline) (now : Nat) (q : Particle) :
    Except Particle.Refusal Ingested × Pipeline :=
  match q.verify? p.verifier with
  | .error r => (.error r, p.count fun c => { c with rejected := c.rejected + 1 })
  | .ok _ => p.take now q

/-- Takes in a particle on the wire. -/
def ingestBytes (p : Pipeline) (now : Nat) (bs : Bytes) :
    Except Particle.Refusal Ingested × Pipeline :=
  match Particle.decode? bs with
  | .error e => (.error (.malformed e), p.count fun c => { c with rejected := c.rejected + 1 })
  | .ok q => p.ingest now q

/-! ## Steps -/

/-- Keeps the calls of a list that were not made for a particle before, each number
    once, and the numbers made after them. -/
def newCalls (issued : List CallId) : List CallRequest → List CallRequest × List CallId
  | [] => ([], issued)
  | c :: cs =>
    if c.call ∈ issued then newCalls issued cs
    else
      let (cs, issued) := newCalls (issued ++ [c.call]) cs
      (c :: cs, issued)

/-- The calls of a step that are still to be made for a particle. -/
def issue (p : Pipeline) (id : ParticleId) (cs : List CallRequest) : List CallRequest × Pipeline :=
  match p.table.get? id with
  | none => (cs, p)
  | some e =>
    let (cs, issued) := newCalls e.issued cs
    (cs, { p with table := p.table.modify id (fun e => { e with issued := issued }) })

/-- Calls a service for a step. -/
def invoke (p : Pipeline) (now : Nat) (q : Particle) (c : CallRequest) : Pipeline :=
  { p with router := p.router.invoke now q c }.note (.invoked (p.router.nextCall q c))

/-- Gives a send of a step to the router. -/
def routeSend (p : Pipeline) (now : Nat) (s : Send) : Pipeline × List Routing :=
  let (router, rs) := p.router.act now (.route s)
  ({ p with router := router }.note (.routed s), rs)

/-- Lets a particle wait for the result of a call; if the result is there already,
    the particle is queued for an interpreter. -/
def park (p : Pipeline) (q : Particle) (results : CallResults) (c : CallId) : Pipeline :=
  match p.table.get? q.id with
  | none => p
  | some e =>
    let a : Awaited := ⟨q, results, .call c⟩
    if e.inbox.has c then p.enqueue a
    else
      { p.setStage q.id (.awaitingCall c) with
        callWaiters := p.callWaiters.enqueue (q.id, c) a }

/-- Ends a step: with nothing to wait for, the particle is completed, else it waits
    for the call. -/
def conclude (p : Pipeline) (q : Particle) (results : CallResults) (pending : Option CallId) :
    Pipeline :=
  match pending with
  | none => p.finish q.id .completed
  | some c => p.park q results c

/-! ## Feedback -/

/-- Wakes the particles that have waited for a result. -/
def wakeAll (now : Nat) : List Awaited → Pipeline → Pipeline
  | [], p => p
  | a :: as, p =>
    wakeAll now as (if a.isExpired now then p.finish a.particle.id .expired else p.enqueue a)

/-- Takes in the result of a call, the first one for each call, and wakes the
    particle if it waits for it. Says whether a particle was woken. -/
def onCallResult (p : Pipeline) (now serial : Nat) (id : ParticleId) (c : CallId)
    (r : CallResult) : Bool × Pipeline :=
  let p := p.note (.answered serial id c r)
  match p.table.get? id with
  | none => (false, p)
  | some e =>
    let p :=
      { p with table := p.table.modify id (fun e => { e with inbox := e.inbox.putNew c r }) }
    if e.stage = .awaitingCall c then
      let (as, callWaiters) := p.callWaiters.take (id, c)
      (as.any (fun a => !a.isExpired now), wakeAll now as { p with callWaiters := callWaiters })
    else (false, p)

/-- Takes in a send that was given up: it is added to the live particle or to its
    record. -/
def onDeliveryFault (p : Pipeline) (id : ParticleId) (f : DeliveryFault) : Pipeline :=
  let p := p.count fun c => { c with deliveryFaults := c.deliveryFaults + 1 }
  let p :=
    if p.table.has id then
      { p with table := p.table.modify id (fun e => { e with faults := e.faults ++ [f] }) }
    else { p with records := p.records.attach id f }
  p.note (.undelivered id f)

/-! ## Expiry and shutdown -/

def finishAll (v : Verdict) : List ParticleId → Pipeline → Pipeline
  | [], p => p
  | id :: ids, p => finishAll v ids (p.finish id v)

/-- The waiting particles whose deadline has come by a time. -/
def overdue (p : Pipeline) (time : Nat) : List ParticleId :=
  (p.lanes.removeWhere (fun _ a => a.isExpired time)).1.map (·.2.particle.id) ++
    (p.callWaiters.removeWhere (fun _ a => a.isExpired time)).1.map (·.1.1)

/-- Without the waiting particles whose deadline has come by a time. -/
def withoutOverdue (p : Pipeline) (time : Nat) : Pipeline :=
  let lanes := (p.lanes.removeWhere (fun _ a => a.isExpired time)).2
  { p with
    lanes := lanes
    ring := p.ring.filter lanes.containsKey
    callWaiters := (p.callWaiters.removeWhere (fun _ a => a.isExpired time)).2 }

/-- Ends the waiting particles whose deadline has come by a time, and gives their
    number. -/
def sweep (p : Pipeline) (time : Nat) : Nat × Pipeline :=
  let ids := p.overdue time
  (ids.length, finishAll .expired ids (p.withoutOverdue time))

/-- Drops the waiting particles; those that run go on. -/
def drain (p : Pipeline) : Pipeline :=
  { p with
    ring := []
    lanes := p.lanes.removeAll.2
    callWaiters := p.callWaiters.removeAll.2
    table := p.table.filter (fun _ e => e.stage = .running) }

/-! ## Views -/

/-- The stage of a particle, live or ended; a look-up uses its record. -/
def stage (p : Pipeline) (id : ParticleId) : Option Stage × Pipeline :=
  match p.table.get? id with
  | some e => (some e.stage, p)
  | none =>
    let (rec?, records) := p.records.lookup id
    (rec?.map (fun rec => .ofVerdict rec.verdict), { p with records := records })

/-- The record of a particle; a look-up uses it. -/
def record (p : Pipeline) (id : ParticleId) : Option Record × Pipeline :=
  let (rec?, records) := p.records.lookup id
  (rec?, { p with records := records })

/-- The number of live particles. -/
def live (p : Pipeline) : Nat := p.table.size

/-- The number of sends that wait for a peer. -/
def awaitingPeer (p : Pipeline) : Nat := p.router.waiting.size

end Pipeline

end ParticleMesh
