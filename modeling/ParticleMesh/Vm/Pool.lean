/-
  ParticleMesh — the pool of interpreters.

  A pool has a fixed number of slots, at least one. A slot is idle or leased; the
  slot that was given back last is leased first, at the start slot zero.
-/
namespace ParticleMesh

/-- A pool of interpreters. -/
structure VmPool where
  size : Nat
  /-- The idle slots, the next one to be leased first. -/
  idle : List Nat
deriving DecidableEq, Inhabited

namespace VmPool

/-- A pool in which all slots are idle. -/
def ofSize (n : Nat) : VmPool := ⟨max n 1, List.range (max n 1)⟩

/-- Leases an idle slot, the last that was given back. -/
def acquire? (p : VmPool) : Option (Nat × VmPool) :=
  match p.idle with
  | [] => none
  | s :: idle => some (s, { p with idle := idle })

/-- Takes a leased slot back. -/
def release (p : VmPool) (slot : Nat) : VmPool := { p with idle := slot :: p.idle }

/-- The number of idle slots. -/
def idleCount (p : VmPool) : Nat := p.idle.length

/-- The number of leased slots. -/
def inUse (p : VmPool) : Nat := p.size - p.idleCount

/-- The text of a lease. -/
def leaseText (slot : Nat) : String := "VmHandle \x7b slot: " ++ toString slot ++ " \x7d"

end VmPool

end ParticleMesh
