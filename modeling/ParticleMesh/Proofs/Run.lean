/-
  Runs of a machine.

  A run starts with a pipeline in which nothing has happened, and makes any moves at
  any times. What is left open are the interpreters and the services: `Surroundings`
  says how they may end and answer, and `Surroundings.Allows` which moves that admits.
  `Reachable` are the machines that runs come to, and `Machine.run` makes given moves.
-/
import Mathlib
import ParticleMesh.Node.Basic

namespace ParticleMesh

/-- How interpreters may end a step, and services may answer a call. -/
structure Surroundings where
  vm : Awaited → Ending → Prop
  service : RunningCall → Service.Answer → Prop

namespace Surroundings

/-- Interpreters and services of which nothing is known. -/
def any : Surroundings := ⟨fun _ _ => True, fun _ _ => True⟩

/-- The moves of interpreters and services that are possible; all other moves are. -/
def Allows (S : Surroundings) (m : Machine) : Move → Prop
  | .vmEnds i x => ∀ slot a rest, m.activities[i]? = some (.running slot a :: rest) → S.vm a x
  | .callEnds serial answer =>
    ∀ c, m.pipeline.router.calls.find? (fun c => c.serial = serial) = some c → S.service c answer
  | _ => True

end Surroundings

/-- The machines that runs come to. -/
inductive Reachable (S : Surroundings) : Machine → Prop
  | start (config : NodeConfig) (verifier : Verifier) (host : PeerId) (book : ContactBook) :
      Reachable S (.ofPipeline (Node.startPipeline config verifier host book))
  | step {m : Machine} (now : ℕ) (mv : Move) :
      Reachable S m → S.Allows m mv → Reachable S (m.step now mv)

theorem Surroundings.allows_any (m : Machine) (mv : Move) : Surroundings.any.Allows m mv := by
  cases mv <;> simp [Allows, any]

/-- The machine after some moves, each at its time. -/
def Machine.run (m : Machine) (mvs : List (ℕ × Move)) : Machine :=
  mvs.foldl (fun m x => m.step x.1 x.2) m

/-- Every one of some moves is possible. -/
def Surroundings.AllowsRun (S : Surroundings) : Machine → List (ℕ × Move) → Prop
  | _, [] => True
  | m, (now, mv) :: mvs => S.Allows m mv ∧ S.AllowsRun (m.step now mv) mvs

theorem Reachable.run {S : Surroundings} : ∀ (mvs : List (ℕ × Move)) {m : Machine},
    Reachable S m → S.AllowsRun m mvs → Reachable S (m.run mvs)
  | [], _, h, _ => h
  | (now, mv) :: mvs, _, h, hS => Reachable.run mvs (h.step now mv hS.1) hS.2

theorem Surroundings.allowsRun_any : ∀ (mvs : List (ℕ × Move)) (m : Machine),
    Surroundings.any.AllowsRun m mvs
  | [], _ => trivial
  | (_, mv) :: mvs, m => ⟨Surroundings.allows_any m mv, Surroundings.allowsRun_any mvs _⟩

/-- A machine with some interpreters that takes every signature for good. -/
def Machine.trusting (slots : ℕ) : Machine :=
  .ofPipeline (Node.startPipeline { NodeConfig.default with poolSize := slots } .trusting
    ⟨default⟩ .empty)

theorem Reachable.trusting (S : Surroundings) (slots : ℕ) : Reachable S (.trusting slots) :=
  .start _ _ _ _

/-- A particle of the local peer with a signature. -/
def Particle.signed (id : ParticleId) (script : String) : Particle :=
  { Particle.start id ⟨default⟩ 0 1000 script with signature := some default }

end ParticleMesh
