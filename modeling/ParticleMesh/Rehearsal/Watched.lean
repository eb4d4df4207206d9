/-
  ParticleMesh — a node under watch.

  Whoever watches a node sees the requests and calls that it makes, the steps it
  starts and what becomes of its particles, and answers requests and calls by the
  numbers under which they were seen.

  What a node does while the clock moves on may come in any order, so it is put in
  order by its text: requests by `destination`, happenings by `event?`, calls by
  particle and number. Identifiers that the node made up are hidden, so that the
  order does not depend on them.

  * `collect` sees what the node has done since the last time;
  * `takeRequest` and `takeCall` take what was seen, to answer it.
-/
import ParticleMesh.Json.Printer
import ParticleMesh.Node.Basic

namespace ParticleMesh.Rehearsal

/-! ## Order -/

/-- What the identifiers that nodes make up start with. -/
def madeUpStart : String := "00000000-0000-4000-8000-"

/-- Whether an identifier was made up. -/
def isMadeUp (id : String) : Bool := madeUpStart.toList.isPrefixOf id.toList

/-- Whether an identifier was made up by a script storage. -/
def isScripted (id : ParticleId) : Bool :=
  ScriptStorage.isOwn id && isMadeUp ((id.drop ScriptStorage.idStart.length).toString)

/-- An identifier, hidden if it was made up. -/
def shownId (id : ParticleId) : String :=
  if isScripted id then "auto_*" else if isMadeUp id then "uuid" else id

/-- Whether an identifier is shown as it is. -/
def isPlain (id : ParticleId) : Bool := shownId id = id

def destination (q : Request) : Json :=
  .arr [.str (shownId q.particle), .str q.contact.peer.text,
    .arr (q.contact.addresses.map .str)]

def verdict : Verdict → Json
  | .completed => .str "Completed"
  | .expired => .str "Expired"
  | .faulted text => .arr [.str "Faulted", .str text]

/-- The kind of a failure. -/
def failureKind : DispatchFailure → String
  | .noRoute => "NoRoute"
  | .transport _ => "Transport"
  | .channelClosed => "ChannelClosed"
  | .encode _ => "Encode"

/-- A send that was given up. -/
def deliveryFault (f : DeliveryFault) : Json :=
  .arr [.str f.target.text, .arr [.str (failureKind f.failure), .str f.failure.message],
    .int f.attempts]

/-- What becomes of a particle at a time; nothing for what it goes through before. -/
def event? (time : Nat) : Happening → Option Json
  | .taken _ | .started .. | .invoked _ | .routed _ | .answered .. => none
  | .finished id v =>
    some (.arr [.int time, .str "finished", .str (shownId id), verdict v])
  | .undelivered id f =>
    some (.arr [.int time, .str "undelivered", .str (shownId id), deliveryFault f])

/-- Sorts by text; what has the same text keeps its order. -/
def sortByText {α : Type} (text : α → String) (xs : List α) : List α :=
  xs.mergeSort fun a b => !decide (text b < text a)

/-- Whether what was done at the same moment is seen as it came, or in the order of
    its text. -/
inductive Sorting where
  | asItCame
  | byText
deriving DecidableEq

/-! ## What is seen -/

/-- What was seen of a node. -/
structure Sightings where
  /-- Requests with their times and numbers. -/
  requests : List (Nat × Nat × Request)
  events : List Json
  /-- Calls with their times and numbers. -/
  calls : List (Nat × Nat × RunningCall)
  runs : List Awaited

def Sightings.none : Sightings := ⟨[], [], [], []⟩

/-- Who holds the script storage of a node. -/
inductive StorageHandle where
  | missing
  | held
  | dropped
deriving DecidableEq

/-- A node under watch. -/
structure Watched where
  node : Node
  showsRuns : Bool
  /-- Whether its calls are shown and answered from outside. -/
  showsCalls : Bool
  handle : StorageHandle
  /-- The number of scripts stored so far. -/
  scripts : Nat
  /-- How much of the journal was seen. -/
  seenJournal : Nat
  seenDemands : Nat
  requestCount : Nat
  /-- The requests seen and not taken, by number. -/
  requests : Assoc Nat Request
  callCount : Nat
  /-- The calls seen and not taken, by number. -/
  calls : Assoc Nat RunningCall
  /-- What was seen and not reported. -/
  sightings : Sightings

namespace Watched

/-- Watches a node from now on. -/
def ofNode (n : Node) (showsRuns showsCalls : Bool) : Watched where
  node := n
  showsRuns := showsRuns
  showsCalls := showsCalls
  handle := .missing
  scripts := 0
  seenJournal := n.pipeline.journal.length
  seenDemands := n.pipeline.router.demands.length
  requestCount := 0
  requests := .empty
  callCount := 0
  calls := .empty
  sightings := .none

def onNode (w : Watched) (f : Node → Node) : Watched := { w with node := f w.node }

def seeRequest (time : Nat) (w : Watched) (q : Request) : Watched :=
  let s := w.sightings
  { w with
    requestCount := w.requestCount + 1
    requests := w.requests.put w.requestCount q
    sightings := { s with requests := s.requests ++ [(time, w.requestCount, q)] } }

def seeCall (time : Nat) (w : Watched) (c : RunningCall) : Watched :=
  let s := w.sightings
  { w with
    callCount := w.callCount + 1
    calls := w.calls.put w.callCount c
    sightings := { s with calls := s.calls ++ [(time, w.callCount, c)] } }

def callBefore (a b : RunningCall) : Bool :=
  let x := shownId a.particle
  let y := shownId b.particle
  decide (x < y) || (x == y && decide (a.request.call ≤ b.request.call))

/-- Sees demands made at a time. -/
def seeDemands (sorting : Sorting) (time : Nat) (w : Watched) (ds : List Demand) : Watched :=
  let requests := ds.filterMap fun d => match d with
    | .request _ q => some q
    | .invocation .. => none
  let calls := ds.filterMap fun d => match d with
    | .request .. => none
    | .invocation _ c => some c
  let (requests, calls) := match sorting with
    | .asItCame => (requests, calls)
    | .byText => (sortByText (fun q => (destination q).text) requests, calls.mergeSort callBefore)
  let w := requests.foldl (seeRequest time) w
  if w.showsCalls then calls.foldl (seeCall time) w else w

/-- Sees what happened at a time. -/
def seeHappenings (sorting : Sorting) (time : Nat) (w : Watched) (hs : List Happening) :
    Watched :=
  let s := w.sightings
  let events := hs.filterMap (event? time)
  let events := match sorting with
    | .asItCame => events
    | .byText => sortByText Json.text events
  let runs := hs.filterMap fun h => match h with
    | .started _ a => some a
    | _ => none
  { w with
    sightings :=
      { s with
        events := s.events ++ events
        runs := if w.showsRuns then s.runs ++ runs else s.runs } }

/-- Sees what the node has done since the last time. -/
def collect (sorting : Sorting) (w : Watched) (time : Nat) : Watched :=
  let p := w.node.pipeline
  let w' := seeDemands sorting time w (p.router.demands.drop w.seenDemands)
  let w' := seeHappenings sorting time w' (p.journal.drop w.seenJournal)
  { w' with seenDemands := p.router.demands.length, seenJournal := p.journal.length }

/-- Reports what was seen, the steps in the order of their identifiers. -/
def takeSightings (w : Watched) : Sightings × Watched :=
  let s := w.sightings
  ({ s with runs := sortByText (fun a => shownId a.particle.id) s.runs },
    { w with sightings := .none })

/-- Takes a request that was seen. -/
def takeRequest (w : Watched) (i : Nat) : Option (Request × Watched) :=
  (w.requests.get? i).map fun q => (q, { w with requests := w.requests.erase i })

/-- Takes a call that was seen. -/
def takeCall (w : Watched) (i : Nat) : Option (RunningCall × Watched) :=
  (w.calls.get? i).map fun c => (c, { w with calls := w.calls.erase i })

/-- The particles whose interpreters wait for their release, in the order of their
    identifiers. -/
def waitingRuns (w : Watched) : List ParticleId :=
  sortByText id (w.node.runningActivities.map fun r => shownId r.2.particle.id)

/-- Lets the interpreter of a particle end, if it waits for that. -/
def release (w : Watched) (now : Nat) (particle : ParticleId) : Bool × Watched :=
  match w.node.runningActivities.find? (fun r => r.2.particle.id = particle) with
  | some (i, a) => if w.node.gated then (true, w.onNode (·.endRun now i a)) else (false, w)
  | none => (false, w)

end Watched

end ParticleMesh.Rehearsal
