/-
  ParticleMesh — the script storage.

  The storage sends stored scripts out as particles of its node, once or at an
  interval. It counts the particles that failed against their script, each at most
  once and only until their time is over, and drops a script that has failed too
  often.

  * `add`, `remove` and `scripts` are the commands;
  * `due` takes the scripts whose time has come, `sent` notes the particle of one,
    `cleanUp` forgets those whose time is over; `isPastClock` says whether the clock
    fails on the way;
  * `onEvent` takes in what happened to a particle.
-/
import ParticleMesh.Pipeline.State

namespace ParticleMesh

/-- A stored script. -/
structure StoredScript where
  source : String
  failures : Nat
  /-- The time between two runs, in milliseconds; none for a single run. -/
  interval : Option Nat
  lastRun : Option Nat
deriving DecidableEq

/-- The first time that a clock cannot tell, in milliseconds: it counts seconds in a
    signed word of 64 bits. -/
def clockEnd : Nat := 0x8000000000000000 * 1000

/-- From when on a script that was run is to run again. -/
def StoredScript.nextRun? (s : StoredScript) : Option Nat :=
  match s.interval, s.lastRun with
  | some interval, some last => some (last + interval)
  | _, _ => none

/-- Whether the time of a script has come. -/
def StoredScript.isDue (s : StoredScript) (now : Nat) : Bool := s.nextRun?.all (· ≤ now)

/-- Whether the time of a script is one that a clock cannot tell. -/
def StoredScript.isPastClock (s : StoredScript) : Bool := s.nextRun?.any (clockEnd ≤ ·)

/-- The number of a stored script. -/
abbrev ScriptId := Nat

/-- A particle sent for a script. -/
structure SentParticle where
  script : ScriptId
  /-- When its failures cease to count. -/
  deadline : Nat
deriving DecidableEq

/-- The script storage. -/
structure ScriptStorage where
  /-- The number of failures after which a script is dropped. -/
  maxFailures : Nat
  stored : Assoc ScriptId StoredScript
  particles : Assoc ParticleId SentParticle

namespace ScriptStorage

def empty (maxFailures : Nat) : ScriptStorage := ⟨maxFailures, .empty, .empty⟩

/-- What the identifiers of particles of the storage start with. -/
def idStart : String := "auto_"

/-- Whether an identifier is that of a particle of the storage. -/
def isOwn (id : ParticleId) : Bool := idStart.toList.isPrefixOf id.toList

def add (s : ScriptStorage) (id : ScriptId) (source : String) (interval : Option Nat) :
    ScriptStorage :=
  { s with stored := s.stored.put id ⟨source, 0, interval, none⟩ }

/-- Removes a script, and says whether it was stored. -/
def remove (s : ScriptStorage) (id : ScriptId) : Bool × ScriptStorage :=
  (s.stored.has id, { s with stored := s.stored.erase id })

def scripts (s : ScriptStorage) : List (ScriptId × StoredScript) := s.stored.entries

/-- Takes the scripts whose time has come. One without an interval is taken out of
    the storage. -/
def due (s : ScriptStorage) (now : Nat) : List (ScriptId × String) × ScriptStorage :=
  let run := s.stored.entries.filter (fun e => e.2.isDue now)
  let kept := s.stored.entries.filterMap (fun e =>
    match e.2.interval with
    | none => none
    | some _ => some (e.1, if e.2.isDue now then { e.2 with lastRun := some now } else e.2))
  (run.map (fun e => (e.1, e.2.source)), { s with stored := ⟨kept⟩ })

/-- Whether the time of a stored script is one that a clock cannot tell. -/
def isPastClock (s : ScriptStorage) : Bool := s.stored.entries.any (·.2.isPastClock)

/-- Notes a particle sent for a script. -/
def sent (s : ScriptStorage) (particle : ParticleId) (script : ScriptId) (deadline : Nat) :
    ScriptStorage :=
  { s with particles := s.particles.put particle ⟨script, deadline⟩ }

/-- Counts a failure against the script of a particle; the particle is forgotten, and
    so is the script if that was one failure too many. -/
def recordFailure (s : ScriptStorage) (particle : ParticleId) : ScriptStorage :=
  match s.particles.get? particle with
  | none => s
  | some p =>
    let s := { s with particles := s.particles.erase particle }
    match s.stored.get? p.script with
    | none => s
    | some script =>
      if script.failures + 1 < s.maxFailures then
        { s with
          stored := s.stored.modify p.script (fun x => { x with failures := x.failures + 1 }) }
      else { s with stored := s.stored.erase p.script }

/-- Takes in what happened to a particle. One of its own that ends otherwise than
    completed, or whose send was given up, has failed. -/
def onEvent (s : ScriptStorage) : Happening → ScriptStorage
  | .taken _ | .started .. | .invoked _ | .routed _ | .answered .. => s
  | .finished id v => if isOwn id && v ≠ .completed then s.recordFailure id else s
  | .undelivered id _ => if isOwn id then s.recordFailure id else s

/-- Forgets the particles whose time is over. -/
def cleanUp (s : ScriptStorage) (now : Nat) : ScriptStorage :=
  { s with particles := s.particles.filter (fun _ p => now < p.deadline) }

end ScriptStorage

end ParticleMesh
