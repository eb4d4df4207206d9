/-
  ParticleMesh — the settings of a node.

  Durations are in nanoseconds. The node's clock counts milliseconds; a duration is
  rounded up to them when something waits for it.
-/
import ParticleMesh.Route.Delivery
import ParticleMesh.Vm.Fault

namespace ParticleMesh

abbrev Nanos := Nat

namespace Nanos

def ofMillis (n : Nat) : Nanos := n * 1000000

def ofSeconds (n : Nat) : Nanos := n * 1000000000

def millis (d : Nanos) : Nat := d / 1000000

/-- The milliseconds after which the duration is over. -/
def wait (d : Nanos) : Nat := (d + 999999) / 1000000

end Nanos

/-- The settings of the script storage. -/
structure StorageConfig where
  /-- The time between two looks for scripts that are due. -/
  resolution : Nanos
  /-- The number of failures after which a script is dropped, below 256. -/
  maxFailures : Nat
deriving DecidableEq

/-- The settings of a node. -/
structure NodeConfig where
  poolSize : Nat
  backend : Backend
  /-- The time that particles of this node live. -/
  particleTtl : Nanos
  /-- The attempts to deliver a send. -/
  maxRouteAttempts : Nat
  routeRetryBackoff : Nanos
  /-- The time between two looks for particles that have ended. -/
  expirySweepInterval : Nanos
  recordCapacity : Nat
  /-- The number of shards of the waiting queues. -/
  queueShards : Nat
  /-- The settings of the script storage. -/
  storage : StorageConfig
  /-- The number of happenings that are kept for whoever watches the node. -/
  eventBuffer : Nat
deriving DecidableEq

namespace NodeConfig

def default : NodeConfig where
  poolSize := 4
  backend := .line
  particleTtl := Nanos.ofSeconds 20
  maxRouteAttempts := 3
  routeRetryBackoff := Nanos.ofMillis 200
  expirySweepInterval := Nanos.ofSeconds 1
  recordCapacity := 16384
  queueShards := 16
  storage := ⟨Nanos.ofSeconds 3, 3⟩
  eventBuffer := 1024

/-- The time that particles of this node live, in whole milliseconds, at most the
    greatest that a particle can have. -/
def ttlMillis (c : NodeConfig) : UInt32 := UInt32.ofNat (min c.particleTtl.millis 0xFFFFFFFF)

/-- How often, at least once, and how soon a send is tried again. -/
def routePolicy (c : NodeConfig) : RoutePolicy :=
  ⟨max c.maxRouteAttempts 1, c.routeRetryBackoff.wait⟩

end NodeConfig

end ParticleMesh
