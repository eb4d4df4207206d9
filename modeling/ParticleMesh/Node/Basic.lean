/-
  ParticleMesh — a node.

  A node is a pipeline with a clock, a loop and, if it has one, a script storage.
  The loop takes in what comes from the network and what comes back from services
  and transport, and looks for particles that have ended at regular times. It goes
  on as long as someone holds the node; a script storage that runs holds it too.

  * `Node.settle` lets everything go on that can, in a fixed order: what the clock
    brings about, activities, service calls, the storage, the loop, and last the
    interpreters;
  * the other operations are what a holder of the node may do.

  `Services` says which service calls end by themselves, and the gate of a node
  whether its interpreters do.
-/
import ParticleMesh.Node.Config
import ParticleMesh.Node.Storage
import ParticleMesh.Pipeline.Activity
import ParticleMesh.Script.Run
import ParticleMesh.Service.Registry

namespace ParticleMesh

/-- Answers service calls; one without an answer is left to someone else. -/
abbrev Services := Service.Context → CallRequest → Option Service.Answer

/-- The services of a registry. -/
def Services.ofRegistry (r : Service.Registry) : Services := fun c q => some (r.invoke c q)

/-- Services that are all left to someone else. -/
def Services.manual : Services := fun _ _ => none

/-- What comes from the network. -/
inductive NetworkEvent where
  | particle (bs : Bytes)
  | connection (e : ConnectionEvent)

/-- The script storage of a node. -/
structure NodeStorage where
  storage : ScriptStorage
  /-- The time between two looks for scripts that are due, in milliseconds. -/
  resolution : Nat
  nextTick : Nat
  /-- How many happenings it has taken in. -/
  seen : Nat
  /-- Whether it runs; it ends when it comes to a time that its clock cannot tell. -/
  isRunning : Bool

/-- A node. -/
structure Node where
  config : NodeConfig
  /-- Signs the particles of this node. -/
  signer : Signer
  interpreter : Interpreter
  services : Services
  /-- Whether interpreters end only when they are released. -/
  gated : Bool
  machine : Machine
  /-- What has come from the network, oldest first. -/
  network : List NetworkEvent
  /-- Whether someone outside holds the node. -/
  held : Bool
  isRunning : Bool
  /-- When the loop looks next for particles that have ended. -/
  nextSweep : Nat
  storage : Option NodeStorage
  /-- The number of identifiers made up so far. -/
  identifiers : Nat

namespace Node

/-- Spreads byte strings over shards. -/
def spread (bs : Bytes) : Nat := bs.foldl (fun h b => (31 * h + b.toNat) % 0x100000000) 7

def spreadPeer (p : PeerId) : Nat := spread p.key.toList

def spreadCall (c : ParticleId × CallId) : Nat := spread (Text.Utf8.bytes c.1) + c.2.toNat

/-- A pipeline in which nothing has happened. -/
def startPipeline (config : NodeConfig) (verifier : Verifier) (host : PeerId) (book : ContactBook) :
    Pipeline where
  verifier := verifier
  pool := .ofSize config.poolSize
  table := .empty
  ring := []
  lanes := .ofShards spreadPeer config.queueShards
  callWaiters := .ofShards spreadCall config.queueShards
  router :=
    { host := host, policy := config.routePolicy, book := book, connected := .empty
      waiting := .ofShards spreadPeer config.queueShards
      isOpen := true, demands := [], nextSerial := 0, deliveries := [], calls := []
      feedback := [], dispatched := 0, serviceCalls := 0 }
  records := .ofCapacity config.recordCapacity
  counters := .zero
  journal := []

/-- A node at a time. Its loop looks for particles that have ended at once; it does not
    run if there is to be no time between two looks. -/
def start (config : NodeConfig) (signer : Signer) (verifier : Verifier) (book : ContactBook)
    (services : Services) (now : Nat) : Node where
  config := config
  signer := signer
  interpreter := config.backend.interpreter
  services := services
  gated := false
  machine := .ofPipeline (startPipeline config verifier signer.peer book)
  network := []
  held := true
  isRunning := config.expirySweepInterval != 0
  nextSweep := now
  storage := none
  identifiers := 0

/-- Gives the node a script storage, which looks for due scripts at once; it does not
    run if there is to be no time between two looks. -/
def withStorage (n : Node) (now : Nat) : Node :=
  if n.config.storage.resolution = 0 then n
  else
    { n with
      storage := some
        ⟨.empty n.config.storage.maxFailures, n.config.storage.resolution.wait, now,
          n.machine.pipeline.journal.length, true⟩ }

def pipeline (n : Node) : Pipeline := n.machine.pipeline

def move (n : Node) (now : Nat) (m : Move) : Node := { n with machine := n.machine.step now m }

/-! ## Particles of this node -/

def ingest (n : Node) (now : Nat) (q : Particle) : Except Particle.Refusal Ingested × Node :=
  let (r, m) := n.machine.ingest now q
  (r, { n with machine := m })

/-- Hands in a particle on the wire. -/
def ingestBytes (n : Node) (now : Nat) (bs : Bytes) : Except Particle.Refusal Ingested × Node :=
  let (r, m) := n.machine.ingestBytes now bs
  (r, { n with machine := m })

/-- A signed particle of this node. -/
def newParticle? (n : Node) (now : Nat) (id : ParticleId) (script : String) :
    Except Particle.Flaw Particle :=
  (Particle.start id n.signer.peer (UInt64.ofNat now) n.config.ttlMillis script).sign? n.signer

/-- An identifier that was not made up before, of the length of a random one. -/
def identifier (n : Nat) : String :=
  let digits := Nat.toDigits 10 n
  "00000000-0000-4000-8000-" ++ String.ofList (List.replicate (12 - digits.length) '0' ++ digits)

def freshId (n : Node) : String × Node :=
  (identifier n.identifiers, { n with identifiers := n.identifiers + 1 })

/-! ## The script storage -/

/-- The script storage, if it runs. -/
def runningStorage? (n : Node) : Option NodeStorage := n.storage.filter (·.isRunning)

/-- Has the script storage do something, if it runs. -/
def onStorage (n : Node) (f : ScriptStorage → ScriptStorage) : Node :=
  { n with
    storage := n.storage.map fun s =>
      if s.isRunning then { s with storage := f s.storage } else s }

/-- Ends the script storage; it stays as it was last. -/
def endStorage (n : Node) : Node :=
  { n with storage := n.storage.map fun s => { s with isRunning := false } }

/-- Sends a script out: its particle is noted, then handed in; a refusal is a
    failure. A script that makes no particle is passed over. If the clock cannot tell
    until when failures of the particle count, the storage ends. -/
def sendScript (n : Node) (now : Nat) (script : ScriptId × String) : Node :=
  if n.runningStorage?.isNone then n
  else
    let (made, n) := n.freshId
    let id := ScriptStorage.idStart ++ made
    match n.newParticle? now id script.2 with
    | .error _ => n
    | .ok q =>
      let deadline := now + n.config.particleTtl.wait
      if clockEnd ≤ deadline then n.endStorage
      else
        let n := n.onStorage (·.sent id script.1 deadline)
        match n.ingest now q with
        | (.ok _, n) => n
        | (.error _, n) => n.onStorage (·.recordFailure id)

/-- Sends out the scripts that are due, and forgets the particles whose time is
    over. If the clock cannot tell the time of a stored script, the storage ends and
    sends out none. -/
def runScripts (n : Node) (now : Nat) : Node :=
  match n.runningStorage? with
  | none => n
  | some s =>
    if s.storage.isPastClock then n.endStorage
    else
      let (due, storage) := s.storage.due now
      let n :=
        { n with storage := some { s with storage := storage, nextTick := now + s.resolution } }
      (due.foldl (fun n script => n.sendScript now script) n).onStorage (·.cleanUp now)

/-- Takes in the happenings that the storage has not seen. -/
def notifyStorage (n : Node) : Node :=
  let journal := n.pipeline.journal
  { n with
    storage := n.storage.map fun s =>
      if s.isRunning then
        { s with
          storage := (journal.drop s.seen).foldl ScriptStorage.onEvent s.storage
          seen := journal.length }
      else s }

/-! ## Going on -/

/-- Whether a happening is for the storage still. -/
def storageIsBehind (n : Node) : Bool :=
  match n.runningStorage? with
  | none => false
  | some s => s.seen < n.pipeline.journal.length

/-- Whether someone holds the node; a script storage does as long as it runs. -/
def isHeld (n : Node) : Bool := n.held || n.runningStorage?.isSome

/-- The first delivery whose rest is over. -/
def restedDelivery (n : Node) (now : Nat) : Option Nat :=
  n.pipeline.router.deliveries.findSome? fun d =>
    match d.phase with
    | .resting wake _ => if wake ≤ now then some d.serial else none
    | .requested _ => none

/-- Whether the loop has to look for particles that have ended. -/
def sweepIsDue (n : Node) (now : Nat) : Bool := n.isRunning && n.nextSweep ≤ now

/-- Looks for particles that have ended. -/
def sweep (n : Node) (now : Nat) : Node :=
  { n.move now .sweep with nextSweep := now + n.config.expirySweepInterval.wait }

/-- Whether the storage has to look for scripts that are due. -/
def scriptsAreDue (n : Node) (now : Nat) : Bool :=
  match n.runningStorage? with
  | none => false
  | some s => s.nextTick ≤ now

/-- What the clock brings about, if anything. -/
def timely (n : Node) (now : Nat) : Option Node :=
  match n.restedDelivery now with
  | some d => some (n.move now (.wake d))
  | none =>
    if n.sweepIsDue now then some (n.sweep now)
    else if n.scriptsAreDue now then some (n.runScripts now)
    else none

/-- The place of the first activity that can go on by itself. -/
def readyActivity (n : Node) : Option Nat :=
  n.machine.activities.findIdx? fun a => match a with
    | .running .. :: _ => false
    | _ => true

/-- The places of the activities that wait for their interpreters, and what these
    run. -/
def runningActivities (n : Node) : List (Nat × Awaited) :=
  (n.machine.activities.mapIdx (fun i a => (i, a))).filterMap fun e => match e.2 with
    | .running _ a :: _ => some (e.1, a)
    | _ => none

/-- The first service call that has an answer. -/
def answeredCall (n : Node) (now : Nat) : Option (Nat × Service.Answer) :=
  let r := n.pipeline.router
  r.calls.findSome? fun c => (n.services (r.context now c) c.request).map (c.serial, ·)

/-- Lets an activity or a service call go on, or the storage take in what has
    happened, if there is something to do. -/
def busy (n : Node) (now : Nat) : Option Node :=
  match n.readyActivity with
  | some i => some (n.move now (.act i))
  | none =>
    match n.answeredCall now with
    | some (serial, answer) => some (n.move now (.callEnds serial answer))
    | none => if n.storageIsBehind then some n.notifyStorage else none

/-- The loop ends, and the waiting particles are dropped. -/
def stop (n : Node) (now : Nat) : Node := { n.move now .drain with isRunning := false }

/-- Takes in something from the network. -/
def onNetwork (n : Node) (now : Nat) : NetworkEvent → Node
  | .particle bs => n.move now (.ingestBytes bs)
  | .connection e => n.move now (.connection e)

/-- One step of the loop, if there is something to do. -/
def loopStep (n : Node) (now : Nat) : Option Node :=
  if !n.isRunning then none
  else if !n.pipeline.router.feedback.isEmpty then some (n.move now .feedback)
  else
    match n.network with
    | e :: es => some ({ n with network := es }.onNetwork now e)
    | [] => if n.isHeld then none else some (n.stop now)

/-- Ends the interpreter of the activity at a place. -/
def endRun (n : Node) (now : Nat) (i : Nat) (a : Awaited) : Node :=
  n.move now (.vmEnds i (n.interpreter a.particle a.results))

/-- Ends the interpreter that has run for the longest time, unless interpreters are
    gated. -/
def endOldestRun (n : Node) (now : Nat) : Option Node :=
  if n.gated then none
  else n.runningActivities.head?.map fun (i, a) => n.endRun now i a

/-- The next thing to go on, if there is any. -/
def next (n : Node) (now : Nat) : Option Node :=
  n.timely now <|> n.busy now <|> n.loopStep now <|> n.endOldestRun now

/-- Lets everything go on that can; the number bounds the steps. -/
def settle (now : Nat) : Nat → Node → Node
  | 0, n => n
  | k + 1, n =>
    match n.next now with
    | none => n
    | some n => settle now k n

/-- The bound of the steps between two events from outside. -/
def patience : Nat := 1000000000

/-- Lets everything go on that can. -/
def settled (n : Node) (now : Nat) : Node := settle now patience n

/-- Forgets what has happened and what was asked, all of which must have been seen. -/
def forget (n : Node) : Node :=
  let p := n.pipeline
  { n with
    machine :=
      { n.machine with
        pipeline := { p with journal := [], router := { p.router with demands := [] } } }
    storage := n.storage.map fun s => { s with seen := 0 } }

/-! ## Counts -/

/-- The counts of a node at one moment. -/
structure Stats where
  ingested : Nat
  /-- Particles that were live or had ended already. -/
  duplicates : Nat
  rejected : Nat
  vmRuns : Nat
  completed : Nat
  expired : Nat
  faulted : Nat
  dispatched : Nat
  deliveryFaults : Nat
  serviceCalls : Nat
  live : Nat
  /-- Sends that wait for a peer. -/
  awaitingPeer : Nat
  records : Nat
  vmsInUse : Nat
deriving DecidableEq

/-- The counts of a node. -/
def stats (n : Node) : Stats :=
  let p := n.pipeline
  let c := p.counters
  ⟨c.ingested, c.duplicates, c.rejected, c.vmRuns, c.completed, c.expired, c.faulted,
    p.router.dispatched, c.deliveryFaults, p.router.serviceCalls, p.live, p.awaitingPeer,
    p.records.size, p.pool.inUse⟩

end Node

end ParticleMesh
