/-
  ParticleMesh — waiting queues.

  Values wait in queues under keys, each queue in order of arrival. The keys are
  spread over shards by a hash function, and a queue that becomes empty is dropped.

  * `WaitingQueues.queued` is the queue of a key; every other operation is said in
    terms of it;
  * `enqueue`, `take` and `popFront` work on one key;
  * `removeAll` and `removeWhere` go through all shards.
-/
import ParticleMesh.Assoc

namespace ParticleMesh

/-- Some of the keys with their queues. -/
abbrev Shard (K V : Type) := Assoc K (List V)

/-- Queues of values under keys. -/
structure WaitingQueues (K V : Type) where
  hash : K → Nat
  shards : List (Shard K V)

namespace WaitingQueues

variable {K V : Type} [DecidableEq K]

/-- Empty queues over `n` shards, at least one. -/
def ofShards (hash : K → Nat) (n : Nat) : WaitingQueues K V :=
  ⟨hash, List.replicate (max n 1) .empty⟩

/-- The usual number of shards. -/
def defaultShards : Nat := 16

/-- The place of the shard of a key. -/
def place (q : WaitingQueues K V) (k : K) : Nat := q.hash k % q.shards.length

/-- The shard of a key. -/
def shard (q : WaitingQueues K V) (k : K) : Shard K V := q.shards.getD (q.place k) .empty

/-- Changes the shard of a key. -/
def onShard (q : WaitingQueues K V) (k : K) (f : Shard K V → Shard K V) : WaitingQueues K V :=
  { q with shards := q.shards.modify (q.place k) f }

/-- The values queued under a key, oldest first. -/
def queued (q : WaitingQueues K V) (k : K) : List V := ((q.shard k).get? k).getD []

/-- Puts a value at the end of the queue of a key. -/
def enqueue (q : WaitingQueues K V) (k : K) (v : V) : WaitingQueues K V :=
  q.onShard k (fun s => (s.putNew k []).modify k (· ++ [v]))

/-- Removes the queue of a key. -/
def take (q : WaitingQueues K V) (k : K) : List V × WaitingQueues K V :=
  (q.queued k, q.onShard k (·.erase k))

/-- Removes the oldest value of a key. -/
def popFront (q : WaitingQueues K V) (k : K) : Option V × WaitingQueues K V :=
  match (q.shard k).get? k with
  | none => (none, q)
  | some vs =>
    let rest := vs.tail
    let q' := if rest.isEmpty then q.onShard k (·.erase k)
      else q.onShard k (·.modify k (fun _ => rest))
    (vs.head?, q')

/-- Whether a key has a queue. -/
def containsKey (q : WaitingQueues K V) (k : K) : Bool := (q.shard k).has k

/-- The length of the queue of a key. -/
def lengthOf (q : WaitingQueues K V) (k : K) : Nat := (q.queued k).length

/-- The number of queued values. -/
def size (q : WaitingQueues K V) : Nat :=
  (q.shards.flatMap (fun s => s.values.flatten)).length

/-- Whether there is no queue. -/
def isEmpty (q : WaitingQueues K V) : Bool := q.shards.all (fun s => s.entries.isEmpty)

/-- All keys with their queues, shard by shard. -/
def entries (q : WaitingQueues K V) : List (K × List V) := q.shards.flatMap (·.entries)

def removeAll (q : WaitingQueues K V) : List (K × List V) × WaitingQueues K V :=
  (q.entries, { q with shards := q.shards.map (fun _ => .empty) })

/-- The values of a shard for which a condition holds, with their keys. -/
def matching (p : K → V → Bool) (s : Shard K V) : List (K × V) :=
  s.entries.flatMap (fun e => (e.2.filter (p e.1)).map (e.1, ·))

/-- A shard without the values for which a condition holds, and without the queues
    that become empty by that. -/
def keeping (p : K → V → Bool) (s : Shard K V) : Shard K V :=
  ⟨(s.entries.map (fun e => (e.1, e.2.filter (fun v => !p e.1 v)))).filter
    (fun e => !e.2.isEmpty)⟩

/-- Removes the values for which a condition holds; the others keep their order. -/
def removeWhere (q : WaitingQueues K V) (p : K → V → Bool) : List (K × V) × WaitingQueues K V :=
  (q.shards.flatMap (matching p), { q with shards := q.shards.map (keeping p) })

end WaitingQueues

end ParticleMesh
