/-
  ParticleMesh — a world of watched nodes.

  The nodes of a world share a clock that moves on only when it is told to, one
  millisecond at a time. After whatever is done to a node everything goes on that
  can; only then is it seen what the nodes have done.

  * `World.ofRoles` starts a world, `World.advance` lets time pass;
  * `World.act` does something to one node;
  * `World.report` reports what was seen of each node.
-/
import ParticleMesh.Rehearsal.Watched

namespace ParticleMesh.Rehearsal

/-- What a node of a world is made of. -/
structure Role where
  config : NodeConfig
  secret : Secret
  verifier : Verifier
  /-- The services; without them calls are shown and answered from outside. -/
  services : Option Services
  /-- The interpreter, if it is another than that of the settings. -/
  interpreter : Option Interpreter
  /-- Whether interpreters end only when they are released. -/
  gated : Bool
  showsRuns : Bool
  /-- Whether the node has a script storage. -/
  hasStorage : Bool

/-- A node of a role at a time. -/
def Role.enter (r : Role) (now : Nat) : Watched :=
  let n := Node.start r.config (.ofSecret r.secret) r.verifier .empty
    (r.services.getD Services.manual) now
  let n := { n with gated := r.gated, interpreter := r.interpreter.getD n.interpreter }
  let w := Watched.ofNode n r.showsRuns r.services.isNone
  if r.hasStorage then { w.onNode (·.withStorage now) with handle := .held } else w

/-- A world of nodes. -/
structure World where
  start : Nat
  now : Nat
  nodes : List Watched

namespace World

/-- The time since the start. -/
def elapsed (w : World) : Nat := w.now - w.start

/-- Everything goes on that can, and is seen. -/
def settle (sorting : Sorting) (w : World) : World :=
  { w with
    nodes := w.nodes.map fun n => (n.onNode (·.settled w.now)).collect sorting w.elapsed }

/-- How far the identifiers that two nodes make up are apart. -/
def identifierRange : Nat := 1000000

/-- A world with a node of each role. -/
def ofRoles (roles : List Role) (now : Nat) : World :=
  let nodes := roles.mapIdx fun k r =>
    (r.enter now).onNode fun n => { n with identifiers := k * identifierRange }
  settle .byText ⟨now, now, nodes⟩

def tick (w : World) : World := settle .byText { w with now := w.now + 1 }

def advance : Nat → World → World
  | 0, w => w
  | k + 1, w => advance k w.tick

/-- Does something to a node, if there is one of that number. -/
def act {α : Type} (w : World) (k : Nat) (f : Watched → α × Watched) : Option (α × World) :=
  w.nodes[k]?.map fun n =>
    let (a, n) := f n
    (a, { w with nodes := w.nodes.set k n })

/-- Reports what was seen of each node. -/
def report (w : World) : List Sightings × World :=
  let seen := w.nodes.map Watched.takeSightings
  (seen.map (·.1), { w with nodes := seen.map (·.2) })

end World

/-! ## What may be done to a node -/

namespace Watched

/-- Whether someone outside holds the node. -/
def isHeld (w : Watched) : Bool := w.node.held

def move (w : Watched) (now : Nat) (m : Move) : Watched := w.onNode (·.move now m)

def ingest (w : Watched) (now : Nat) (q : Particle) :
    Except Particle.Refusal Ingested × Watched :=
  let (r, n) := w.node.ingest now q
  (r, { w with node := n })

/-- Hands in a particle on the wire. -/
def ingestBytes (w : Watched) (now : Nat) (bs : Bytes) :
    Except Particle.Refusal Ingested × Watched :=
  let (r, n) := w.node.ingestBytes now bs
  (r, { w with node := n })

/-- Sends something over the network. -/
def overNetwork (w : Watched) (e : NetworkEvent) : Watched :=
  w.onNode fun n => { n with network := n.network ++ [e] }

/-- Reports on a request that was seen, and says whether it was there to be
    reported on. -/
def answerRequest (w : Watched) (now i : Nat) (r : ParticleMesh.Report) : Bool × Watched :=
  match w.takeRequest i with
  | none => (false, w)
  | some (q, w) => (true, w.move now (.report q.serial r))

/-- Answers a call that was seen, and says whether it was there to be answered. -/
def answerCall (w : Watched) (now i : Nat) (answer : Service.Answer) : Bool × Watched :=
  match w.takeCall i with
  | none => (false, w)
  | some (c, w) => (true, w.move now (.callEnds c.serial answer))

/-- The stage of a particle. -/
def stage (w : Watched) (now : Nat) (id : ParticleId) : Option Stage × Watched :=
  ((w.node.pipeline.stage id).1, w.move now (.lookStage id))

/-- The record of a particle. -/
def record (w : Watched) (now : Nat) (id : ParticleId) : Option Record × Watched :=
  ((w.node.pipeline.record id).1, w.move now (.lookRecord id))

/-- Opens the gate for good. -/
def openGate (w : Watched) : Watched := w.onNode fun n => { n with gated := false }

def letGo (w : Watched) : Watched := w.onNode fun n => { n with held := false }

/-- Why the script storage cannot be asked. -/
inductive StorageError where
  | noHandle
  /-- It does not run any more. -/
  | notRunning
deriving DecidableEq

def askStorage {α : Type} (w : Watched) (f : ScriptStorage → α × ScriptStorage) :
    Except StorageError (α × Watched) :=
  match w.handle, w.node.runningStorage? with
  | .held, some s =>
    let (a, storage) := f s.storage
    .ok (a, w.onNode fun n => { n with storage := some { s with storage := storage } })
  | .held, none => .error .notRunning
  | _, _ => .error .noHandle

/-- Stores a script under the next number. -/
def addScript (w : Watched) (source : String) (interval : Option Nat) :
    Except StorageError (ScriptId × Watched) :=
  let w' := { w with scripts := w.scripts + 1 }
  w'.askStorage fun s => (w.scripts, s.add w.scripts source interval)

/-- Removes a script, and says whether it was there. -/
def removeScript (w : Watched) (id : ScriptId) : Except StorageError (Bool × Watched) :=
  w.askStorage (·.remove id)

/-- The stored scripts in the order of their numbers. -/
def listScripts (w : Watched) : Except StorageError (List (ScriptId × StoredScript)) :=
  (w.askStorage fun s => (s.scripts, s)).map fun r =>
    r.1.mergeSort fun a b => decide (a.1 ≤ b.1)

/-- Lets the script storage go, which ends it. -/
def dropStorage (w : Watched) : Watched :=
  { w.onNode fun n => { n with storage := none } with
    handle := if w.handle = .held then .dropped else w.handle }

/-- Ends the script storage while someone holds it. -/
def killStorage (w : Watched) : Watched := w.onNode fun n => { n with storage := none }

end Watched

end ParticleMesh.Rehearsal
