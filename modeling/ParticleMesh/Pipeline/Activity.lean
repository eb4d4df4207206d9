/-
  ParticleMesh — the pipeline at work.

  Several activities go on at the same time: pumps, which lease interpreters to
  waiting particles, steps, and routing. An activity is a list of atomic actions
  still to be done; `Machine.step` lets one of them do its next action, or lets
  something happen from outside. Any order of these moves is a run.

  * a pump leases an interpreter, takes the next particle for a step, which starts
    on a thread of its own, and so on until there is no idle interpreter or no
    particle; before it stops it gives the interpreter back and looks once more for
    particles;
  * a step counts itself as it starts, waits for the interpreter to end, gives it
    back, and then has its effects: none after a fault or past the deadline, else the
    calls, the sends, and in the end the particle waits or is completed; then it pumps;
  * whoever queues a particle for an interpreter pumps afterwards.
-/
import ParticleMesh.Pipeline.State

namespace ParticleMesh

/-- An atomic action of the pipeline. -/
inductive Action where
  | lease
  /-- Take the next particle for a leased interpreter. -/
  | select (slot : Nat)
  /-- Give an interpreter back that found no particle. -/
  | giveBack (slot : Nat)
  /-- Look whether a particle was queued meanwhile. -/
  | recheck
  | start (slot : Nat) (a : Awaited)
  /-- Wait for the interpreter to end. -/
  | running (slot : Nat) (a : Awaited)
  /-- Give the interpreter back after a step. -/
  | release (slot : Nat) (a : Awaited) (result : Except Fault Outcome)
  /-- See what the step has come to. -/
  | judge (a : Awaited) (result : Except Fault Outcome)
  | invoke (q : Particle) (c : CallRequest)
  /-- Route a send of a step. -/
  | send (s : Send)
  | routing (r : Routing)
  /-- Complete a particle or let it wait. -/
  | conclude (q : Particle) (results : CallResults) (pending : Option CallId)
  /-- End the waiting particles whose deadline has come by a time. -/
  | sweep (time : Nat)

/-- What one thread of the pipeline has still to do. -/
abbrev Activity := List Action

/-- What follows an action: the rest of the activity, and activities it starts. -/
structure Continuation where
  /-- What comes before the rest of the activity. -/
  next : Activity
  spawned : List Activity

namespace Continuation

def done : Continuation := ⟨[], []⟩

def go (as : Activity) : Continuation := ⟨as, []⟩

end Continuation

namespace Pipeline

/-- What a step has come to: its fault, the end of its time, or its effects. -/
def judge (p : Pipeline) (now : Nat) (a : Awaited) (result : Except Fault Outcome) :
    Pipeline × Continuation :=
  let id := a.particle.id
  match result with
  | .error f => (p.finish id (.faulted f.message), .done)
  | .ok o =>
    if a.isExpired now then (p.finish id .expired, .done)
    else
      let q := { a.particle with data := o.data }
      let effects := Effects.ofOutcome q o
      let (calls, p) := p.issue id effects.calls
      (p, .go (calls.map (.invoke q) ++ effects.sends.map .send ++
        [.conclude q a.results o.lowestCall?]))

/-- Does one action at a time. -/
def act (p : Pipeline) (now : Nat) : Action → Pipeline × Continuation
  | .lease =>
    match p.pool.acquire? with
    | none => (p, .done)
    | some (slot, pool) => ({ p with pool := pool }, .go [.select slot])
  | .select slot =>
    match p.selectNext now with
    | (some a, p) => (p, ⟨[.lease], [[.start slot a]]⟩)
    | (none, p) => (p, .go [.giveBack slot])
  | .giveBack slot => ({ p with pool := p.pool.release slot }, .go [.recheck])
  | .recheck => (p, .go (if p.hasRunnable then [.lease] else []))
  | .start slot a =>
    let p := p.count fun c => { c with vmRuns := c.vmRuns + 1 }
    (p.note (.started now a), .go [.running slot a])
  | .running slot a => (p, .go [.running slot a])
  | .release slot a result =>
    ({ p with pool := p.pool.release slot }, .go [.judge a result, .lease])
  | .judge a result => p.judge now a result
  | .invoke q c => (p.invoke now q c, .done)
  | .send s =>
    let (p, rs) := p.routeSend now s
    (p, .go (rs.map .routing))
  | .routing r =>
    let (router, rs) := p.router.act now r
    ({ p with router := router }, .go (rs.map .routing))
  | .conclude q results pending => (p.conclude q results pending, .done)
  | .sweep time => ((p.sweep time).2, .go [.routing (.expire time)])

end Pipeline

/-- A pipeline with its activities. -/
structure Machine where
  pipeline : Pipeline
  /-- What goes on, the oldest first. -/
  activities : List Activity

/-- What may happen next. -/
inductive Move where
  | ingest (q : Particle)
  /-- Someone hands in a particle on the wire. -/
  | ingestBytes (bs : Bytes)
  | connection (e : ConnectionEvent)
  /-- An activity does its next action. -/
  | act (i : Nat)
  /-- The interpreter of an activity ends. -/
  | vmEnds (i : Nat) (e : Ending)
  | callEnds (serial : Nat) (answer : Service.Answer)
  /-- The transport reports on a request. -/
  | report (request : Nat) (r : Report)
  /-- The rest of a delivery ends. -/
  | wake (delivery : Nat)
  /-- The oldest result is taken back into the pipeline. -/
  | feedback
  /-- The waiting particles and sends whose time is over are looked for. -/
  | sweep
  /-- The transport stops to take requests. -/
  | close
  /-- The node stops, and the waiting particles are dropped. -/
  | drain
  /-- A contact is added to the contact book. -/
  | addContact (c : Contact)
  /-- The contacts of a peer are removed from the contact book. -/
  | removeContacts (p : PeerId)
  /-- Someone looks the stage of a particle up. -/
  | lookStage (id : ParticleId)
  /-- Someone looks the record of a particle up. -/
  | lookRecord (id : ParticleId)

namespace Machine

/-- A pipeline in which nothing goes on. -/
def ofPipeline (p : Pipeline) : Machine := ⟨p, []⟩

def spawn (m : Machine) (a : Activity) : Machine := { m with activities := m.activities ++ [a] }

def onPipeline (m : Machine) (f : Pipeline → Pipeline) : Machine :=
  { m with pipeline := f m.pipeline }

def onRouter (m : Machine) (f : Router → Router) : Machine :=
  m.onPipeline fun p => { p with router := f p.router }

/-- The activities, with the one at place `i` continued; it is left out when
    nothing is left of it. -/
def continued (as : List Activity) (i : Nat) (rest : Activity) (c : Continuation) : List Activity :=
  let own := c.next ++ rest
  as.take i ++ (if own.isEmpty then [] else [own]) ++ as.drop (i + 1) ++ c.spawned

/-- Lets an activity do its next action. -/
def act (m : Machine) (now : Nat) (i : Nat) : Machine :=
  match m.activities[i]? with
  | some (a :: rest) =>
    let (p, c) := m.pipeline.act now a
    ⟨p, continued m.activities i rest c⟩
  | _ => m

/-- Ends the interpreter of an activity. It is assumed that the thread of an interpreter
    comes to an end of its own, of which a panic is one: that it is lost without one
    (`vm task did not finish`), and its slot with it, is left out. -/
def vmEnds (m : Machine) (i : Nat) (e : Ending) : Machine :=
  match m.activities[i]? with
  | some (.running slot a :: rest) =>
    { m with activities := m.activities.set i (.release slot a e.result :: rest) }
  | _ => m

/-- Hands in a particle. Who takes one in pumps afterwards. -/
def ingested (m : Machine) (r : Except Particle.Refusal Ingested × Pipeline) :
    Except Particle.Refusal Ingested × Machine :=
  let m := { m with pipeline := r.2 }
  (r.1, if r.1 matches .ok .accepted then m.spawn [.lease] else m)

def ingest (m : Machine) (now : Nat) (q : Particle) :
    Except Particle.Refusal Ingested × Machine :=
  m.ingested (m.pipeline.ingest now q)

/-- Hands in a particle on the wire. -/
def ingestBytes (m : Machine) (now : Nat) (bs : Bytes) :
    Except Particle.Refusal Ingested × Machine :=
  m.ingested (m.pipeline.ingestBytes now bs)

/-- Takes the oldest result back into the pipeline. -/
def feedback (m : Machine) (now : Nat) : Machine :=
  match m.pipeline.router.feedback with
  | [] => m
  | f :: fs =>
    let m := m.onRouter fun r => { r with feedback := fs }
    match f with
    | .call serial id c r =>
      let (woke, p) := m.pipeline.onCallResult now serial id c r
      let m := { m with pipeline := p }
      if woke then m.spawn [.lease] else m
    | .fault id f => m.onPipeline (·.onDeliveryFault id f)

/-- What becomes of the machine when something happens. -/
def step (m : Machine) (now : Nat) : Move → Machine
  | .ingest q => (m.ingest now q).2
  | .ingestBytes bs => (m.ingestBytes now bs).2
  | .connection e => m.spawn [.routing (.connection e)]
  | .act i => m.act now i
  | .vmEnds i e => m.vmEnds i e
  | .callEnds serial answer => m.onRouter (·.endCall serial answer)
  | .report request r => m.onRouter (·.report now request r)
  | .wake delivery => m.onRouter (·.wake now delivery)
  | .feedback => m.feedback now
  | .sweep => m.spawn [.sweep now]
  | .close => m.onRouter (·.close)
  | .drain => m.onPipeline (·.drain)
  | .addContact c => m.onRouter fun r => { r with book := r.book.insert c }
  | .removeContacts p => m.onRouter fun r => { r with book := r.book.remove p }
  | .lookStage id => m.onPipeline fun p => (p.stage id).2
  | .lookRecord id => m.onPipeline fun p => (p.record id).2

end Machine

end ParticleMesh
