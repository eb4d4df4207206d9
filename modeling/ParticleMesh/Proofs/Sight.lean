/-
  What is seen of one particle in a machine, and how that changes.

  * `Sight` is the part of a machine that concerns one particle: its entry, where it
    waits, its step, what has happened to it, its calls under way and their results;
    `Machine.Shows` says that a machine shows it;
  * `Sight.Agrees`: the particle is in one place at most, and its stage names it;
  * `Turn` is a change that a particle may go through, whatever goes on around it, and
    `Turns` any number of them.
-/
import ParticleMesh.Proofs.Run

namespace ParticleMesh

/-! ## Steps -/

/-- The point that a step has reached. -/
inductive StepPoint where
  /-- It is about to start. -/
  | ready (slot : ℕ) (a : Awaited)
  /-- Its interpreter is at work. -/
  | running (slot : ℕ) (a : Awaited)
  /-- Its interpreter has ended. -/
  | ended (slot : ℕ) (a : Awaited) (result : Except Fault Outcome)
  /-- The interpreter was given back. -/
  | judging (a : Awaited) (result : Except Fault Outcome)
  /-- It has its effects: calls to make, routing to do, peers to send to, and then the
      call to wait for. -/
  | acting (q : Particle) (calls : List CallRequest) (rs : List Routing) (peers : List PeerId)
      (results : CallResults) (pending : Option CallId)

namespace StepPoint

/-- The particle of a step. -/
def particle : StepPoint → Particle
  | ready _ a | running _ a | ended _ a _ | judging a _ => a.particle
  | acting q _ _ _ _ _ => q

/-- What a step has still to do. -/
def activity : StepPoint → Activity
  | ready slot a => [.start slot a]
  | running slot a => [.running slot a]
  | ended slot a result => [.release slot a result]
  | judging a result => [.judge a result, .lease]
  | acting q calls rs peers results pending =>
    calls.map (.invoke q) ++ (rs.map .routing ++
      (peers.map (fun peer => .send ⟨q, peer⟩) ++ [.conclude q results pending, .lease]))

end StepPoint

/-- The particle that an action decides about. -/
def Action.subject? : Action → Option ParticleId
  | .start _ a | .running _ a | .release _ a _ | .judge a _ => some a.particle.id
  | .conclude q _ _ => some q.id
  | _ => none

/-- The activity is a step of a particle. -/
def Activity.isStepOf (id : ParticleId) (as : Activity) : Bool :=
  as.any fun a => a.subject? = some id

theorem StepPoint.isStepOf_activity {pt : StepPoint} {id : ParticleId} :
    Activity.isStepOf id pt.activity = true ↔ pt.particle.id = id := by
  cases pt <;> simp [activity, Activity.isStepOf, Action.subject?, particle]

/-! ## Sights -/

/-- Where a particle waits. -/
inductive Spot where
  /-- In the lane of its origin. -/
  | lane (a : Awaited)
  /-- For the result of a call. -/
  | parked (c : CallId) (a : Awaited)

def Spot.awaited : Spot → Awaited
  | lane a | parked _ a => a

/-- What is seen of a particle. -/
structure Sight where
  /-- Its entry. -/
  entry : Option Entry
  /-- Where it waits. -/
  spot : Option Spot
  /-- Its step. -/
  point : Option StepPoint
  /-- What has happened to it. -/
  story : List Happening
  /-- Its calls under way. -/
  calls : List RunningCall
  /-- The results of its calls that were not taken back: number, call and result. -/
  results : List (ℕ × CallId × CallResult)

namespace Sight

def blank : Sight := ⟨none, none, none, [], [], []⟩

/-- What stands in a lane. -/
def inLane (s : Sight) (lane : PeerId) : List Awaited :=
  match s.spot with
  | some (.lane a) => if a.particle.origin = lane then [a] else []
  | _ => []

/-- What waits under a call of a particle. -/
def inWaiters (s : Sight) (key : ParticleId × CallId) : List Awaited :=
  match s.spot with
  | some (.parked c a) => if (a.particle.id, c) = key then [a] else []
  | _ => []

def steps (s : Sight) : List Activity := s.point.toList.map StepPoint.activity

/-- The particle is in one place at most, and its stage says in which. -/
inductive Agrees (id : ParticleId) : Sight → Prop where
  | absent {story calls results} : Agrees id ⟨none, none, none, story, calls, results⟩
  | queued {e a story calls results} : e.stage = .awaitingVm → a.particle.id = id →
      Agrees id ⟨some e, some (.lane a), none, story, calls, results⟩
  | parked {e c a story calls results} : e.stage = .awaitingCall c → a.particle.id = id →
      Agrees id ⟨some e, some (.parked c a), none, story, calls, results⟩
  | running {e pt story calls results} : e.stage = .running → pt.particle.id = id →
      Agrees id ⟨some e, none, some pt, story, calls, results⟩

end Sight

/-- The particle that something happens to. -/
def Happening.subject : Happening → ParticleId
  | .taken q => q.id
  | .started _ a => a.particle.id
  | .invoked c => c.particle
  | .routed s => s.particle.id
  | .answered _ id _ _ | .finished id _ | .undelivered id _ => id

/-- The result of a call of a particle. -/
def Feedback.resultFor (id : ParticleId) : Feedback → Option (ℕ × CallId × CallResult)
  | .call serial p c r => if p = id then some (serial, c, r) else none
  | .fault .. => none

/-- What a pipeline shows of a particle, steps aside. -/
structure Pipeline.Shows (p : Pipeline) (id : ParticleId) (s : Sight) : Prop where
  entry : p.table.get? id = s.entry
  lanes : ∀ k, (p.lanes.queued k).filter (fun a => a.particle.id = id) = s.inLane k
  waiters : ∀ k, (p.callWaiters.queued k).filter (fun a => a.particle.id = id) = s.inWaiters k
  story : p.journal.filter (fun x => x.subject = id) = s.story
  calls : p.router.calls.filter (fun c => c.particle = id) = s.calls
  results : p.router.feedback.filterMap (Feedback.resultFor id) = s.results

/-- What a machine shows of a particle. -/
structure Machine.Shows (m : Machine) (id : ParticleId) (s : Sight) : Prop where
  pipeline : m.pipeline.Shows id s
  steps : m.activities.filter (Activity.isStepOf id) = s.steps

/-! ## Turns -/

/-- The entry of a particle that was just taken in. -/
def Entry.fresh (q : Particle) : Entry := ⟨.awaitingVm, .empty, [], [], q.deadline⟩

/-- What a particle may go through at a time. -/
inductive Turn (S : Surroundings) (now : ℕ) (id : ParticleId) : Sight → Sight → Prop where
  /-- It is taken in. -/
  | taken {story calls results} (q : Particle) : q.id = id →
      Turn S now id ⟨none, none, none, story, calls, results⟩
        ⟨some (.fresh q), some (.lane (.start q)), none, story ++ [.taken q], calls, results⟩
  /-- Its time is over while it waits. -/
  | expired {e story calls results} (spot : Spot) (time : ℕ) : spot.awaited.isExpired time = true →
      Turn S now id ⟨some e, some spot, none, story, calls, results⟩
        ⟨none, none, none, story ++ [.finished id .expired], calls, results⟩
  /-- It is given an interpreter. -/
  | selected {e story calls results} (slot : ℕ) (a : Awaited) : a.isExpired now = false →
      Turn S now id ⟨some e, some (.lane a), none, story, calls, results⟩
        ⟨some { e with stage := .running, inbox := .empty }, none,
          some (.ready slot (a.receive e.inbox)), story, calls, results⟩
  /-- Its step starts. -/
  | started {e story calls results} (slot : ℕ) (a : Awaited) :
      Turn S now id ⟨some e, none, some (.ready slot a), story, calls, results⟩
        ⟨some e, none, some (.running slot a), story ++ [.started now a], calls, results⟩
  /-- Its interpreter ends. -/
  | ended {e story calls results} (slot : ℕ) (a : Awaited) (x : Ending) : S.vm a x →
      Turn S now id ⟨some e, none, some (.running slot a), story, calls, results⟩
        ⟨some e, none, some (.ended slot a x.result), story, calls, results⟩
  /-- Its interpreter is given back. -/
  | released {e story calls results} (slot : ℕ) (a : Awaited) (r : Except Fault Outcome) :
      Turn S now id ⟨some e, none, some (.ended slot a r), story, calls, results⟩
        ⟨some e, none, some (.judging a r), story, calls, results⟩
  /-- Its step has failed. -/
  | faulted {e story calls results} (a : Awaited) (f : Fault) :
      Turn S now id ⟨some e, none, some (.judging a (.error f)), story, calls, results⟩
        ⟨none, none, none, story ++ [.finished id (.faulted f.message)], calls, results⟩
  /-- Its time was over when its step ended. -/
  | tooLate {e story calls results} (a : Awaited) (o : Outcome) : a.isExpired now = true →
      Turn S now id ⟨some e, none, some (.judging a (.ok o)), story, calls, results⟩
        ⟨none, none, none, story ++ [.finished id .expired], calls, results⟩
  /-- Its step has effects. -/
  | judged {e story calls results} (a : Awaited) (o : Outcome) : a.isExpired now = false →
      Turn S now id ⟨some e, none, some (.judging a (.ok o)), story, calls, results⟩
        ⟨some { e with issued := (Pipeline.newCalls e.issued o.calls).2 }, none,
          some (.acting { a.particle with data := o.data } (Pipeline.newCalls e.issued o.calls).1 []
            o.next a.results o.lowestCall?), story, calls, results⟩
  /-- Its step calls a service. -/
  | invoked {e story calls results} (q : Particle) (c : CallRequest) (cs : List CallRequest)
      (rs : List Routing) (peers : List PeerId) (known : CallResults) (pending : Option CallId)
      (call : RunningCall) : call.particle = q.id → call.request = c →
      Turn S now id ⟨some e, none, some (.acting q (c :: cs) rs peers known pending), story, calls,
          results⟩
        ⟨some e, none, some (.acting q cs rs peers known pending), story ++ [.invoked call],
          calls ++ [call], results⟩
  /-- Its step goes on with routing. -/
  | routing {e story calls results} (q : Particle) (r : Routing) (rs rs' : List Routing)
      (peers : List PeerId) (known : CallResults) (pending : Option CallId) :
      Turn S now id ⟨some e, none, some (.acting q [] (r :: rs) peers known pending), story, calls,
          results⟩
        ⟨some e, none, some (.acting q [] (rs' ++ rs) peers known pending), story, calls, results⟩
  /-- Its step sends it to a peer. -/
  | routed {e story calls results} (q : Particle) (rs : List Routing) (peer : PeerId)
      (peers : List PeerId) (known : CallResults) (pending : Option CallId) :
      Turn S now id ⟨some e, none, some (.acting q [] [] (peer :: peers) known pending), story,
          calls, results⟩
        ⟨some e, none, some (.acting q [] rs peers known pending),
          story ++ [.routed ⟨q, peer⟩], calls, results⟩
  /-- It has nothing to wait for. -/
  | completed {e story calls results} (q : Particle) (known : CallResults) :
      Turn S now id ⟨some e, none, some (.acting q [] [] [] known none), story, calls, results⟩
        ⟨none, none, none, story ++ [.finished id .completed], calls, results⟩
  /-- It waits for the result of a call. -/
  | parked {e story calls results} (q : Particle) (known : CallResults) (c : CallId) :
      e.inbox.has c = false →
      Turn S now id ⟨some e, none, some (.acting q [] [] [] known (some c)), story, calls, results⟩
        ⟨some { e with stage := .awaitingCall c }, some (.parked c ⟨q, known, .call c⟩), none,
          story, calls, results⟩
  /-- The result that it would wait for is there. -/
  | requeued {e story calls results} (q : Particle) (known : CallResults) (c : CallId) :
      e.inbox.has c = true →
      Turn S now id ⟨some e, none, some (.acting q [] [] [] known (some c)), story, calls, results⟩
        ⟨some { e with stage := .awaitingVm }, some (.lane ⟨q, known, .vm⟩), none, story, calls,
          results⟩
  /-- A service answers a call of it. -/
  | callEnded {entry spot point story results} (before after : List RunningCall)
      (call : RunningCall) (answer : Service.Answer) : S.service call answer →
      Turn S now id ⟨entry, spot, point, story, before ++ call :: after, results⟩
        ⟨entry, spot, point, story, before ++ after, results ++
          [(call.serial, call.request.call, answer.mapError Service.CallError.message)]⟩
  /-- A result comes back after it has ended. -/
  | answeredLate {spot point story calls results} (serial : ℕ) (c : CallId) (r : CallResult) :
      Turn S now id ⟨none, spot, point, story, calls, (serial, c, r) :: results⟩
        ⟨none, spot, point, story ++ [.answered serial id c r], calls, results⟩
  /-- A result comes back that it does not wait for. -/
  | answered {e spot point story calls results} (serial : ℕ) (c : CallId) (r : CallResult) :
      e.stage ≠ .awaitingCall c →
      Turn S now id ⟨some e, spot, point, story, calls, (serial, c, r) :: results⟩
        ⟨some { e with inbox := e.inbox.putNew c r }, spot, point,
          story ++ [.answered serial id c r], calls, results⟩
  /-- The result that it waits for comes back. -/
  | woken {e story calls results} (serial : ℕ) (c : CallId) (r : CallResult) (a : Awaited) :
      a.isExpired now = false →
      Turn S now id ⟨some e, some (.parked c a), none, story, calls, (serial, c, r) :: results⟩
        ⟨some { e with inbox := e.inbox.putNew c r, stage := .awaitingVm },
          some (.lane { a with reason := .vm }), none, story ++ [.answered serial id c r], calls,
          results⟩
  /-- The result that it waits for comes back when its time is over. -/
  | wokenLate {e story calls results} (serial : ℕ) (c : CallId) (r : CallResult) (a : Awaited) :
      a.isExpired now = true →
      Turn S now id ⟨some e, some (.parked c a), none, story, calls, (serial, c, r) :: results⟩
        ⟨none, none, none, story ++ [.answered serial id c r, .finished id .expired], calls,
          results⟩
  /-- The node stops while it waits. -/
  | dropped {e story calls results} (spot : Spot) :
      Turn S now id ⟨some e, some spot, none, story, calls, results⟩
        ⟨none, none, none, story, calls, results⟩
  /-- A send of it is given up. -/
  | undelivered {entry spot point story calls results} (f : DeliveryFault) :
      Turn S now id ⟨entry, spot, point, story, calls, results⟩
        ⟨entry.map fun e => { e with faults := e.faults ++ [f] }, spot, point,
          story ++ [.undelivered id f], calls, results⟩

/-- Any number of turns at a time. -/
abbrev Turns (S : Surroundings) (now : ℕ) (id : ParticleId) : Sight → Sight → Prop :=
  Relation.ReflTransGen (Turn S now id)

/-- A turn keeps the stage and the place of a particle in step. -/
theorem Turn.agrees {S : Surroundings} {now : ℕ} {id : ParticleId} {s t : Sight}
    (h : Turn S now id s t) (hs : s.Agrees id) : t.Agrees id := by
  cases h with
  | taken q hq => exact .queued rfl hq
  | expired | faulted | tooLate | completed | wokenLate | dropped => exact .absent
  | selected slot a =>
    cases hs with | queued _ ha => exact .running rfl ha
  | started => cases hs with | running he ha => exact .running he ha
  | ended => cases hs with | running he ha => exact .running he ha
  | released => cases hs with | running he ha => exact .running he ha
  | judged => cases hs with | running he ha => exact .running he ha
  | invoked => cases hs with | running he ha => exact .running he ha
  | routing => cases hs with | running he ha => exact .running he ha
  | routed => cases hs with | running he ha => exact .running he ha
  | parked q known c => cases hs with | running _ ha => exact .parked rfl ha
  | requeued q known c => cases hs with | running _ ha => exact .queued rfl ha
  | callEnded =>
    cases hs with
    | absent => exact .absent
    | queued he ha => exact .queued he ha
    | parked he ha => exact .parked he ha
    | running he ha => exact .running he ha
  | answeredLate => cases hs with | absent => exact .absent
  | answered =>
    cases hs with
    | queued he ha => exact .queued he ha
    | parked he ha => exact .parked he ha
    | running he ha => exact .running he ha
  | woken => cases hs with | parked _ ha => exact .queued rfl ha
  | undelivered =>
    cases hs with
    | absent => exact .absent
    | queued he ha => exact .queued he ha
    | parked he ha => exact .parked he ha
    | running he ha => exact .running he ha

theorem Turns.agrees {S : Surroundings} {now : ℕ} {id : ParticleId} {s t : Sight}
    (h : Turns S now id s t) (hs : s.Agrees id) : t.Agrees id := by
  induction h with
  | refl => exact hs
  | tail _ h ih => exact h.agrees ih

end ParticleMesh
