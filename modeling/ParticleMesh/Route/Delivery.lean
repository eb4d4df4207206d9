/-
  ParticleMesh — the delivery of one send.

  A send goes to the contacts of its target in turn, one request at a time, until
  the transport reports one delivered. After a failure the delivery rests for a
  while and then tries the next contact, the first again after the last one, until
  the attempts are used up or the particle has ended.

  * `Delivery.report` takes in what the transport says of the current request;
  * `Delivery.wake` ends a rest;
  * `Delivery.report_eq_rest`, `Delivery.lt_deadline_of_wake` and those beside them say
    which ways of going on there are.
-/
import ParticleMesh.Record.Cache

namespace ParticleMesh

/-- How often and how soon a send is tried again. -/
structure RoutePolicy where
  /-- The number of attempts, at least one. -/
  maxAttempts : Nat
  /-- The rest between two attempts, in milliseconds. -/
  backoff : Nat
deriving DecidableEq, Inhabited

/-- What the transport says of a request. -/
inductive Report where
  | delivered
  | failed (text : String)
  /-- The request was dropped without an answer. -/
  | dropped
deriving DecidableEq

/-- A request to the transport. -/
structure Request where
  serial : Nat
  particle : ParticleId
  contact : Contact
  bytes : Bytes
deriving DecidableEq, Inhabited

/-- What a delivery waits for. -/
inductive Phase where
  | requested (serial : Nat)
  /-- The end of the rest after a failure. -/
  | resting (wake : Nat) (failure : DispatchFailure)
deriving DecidableEq

/-- A delivery under way. -/
structure Delivery where
  serial : Nat
  particle : ParticleId
  deadline : Nat
  target : PeerId
  contacts : List Contact
  bytes : Bytes
  attempts : Nat
  phase : Phase
deriving DecidableEq

namespace Delivery

/-- How a delivery goes on. -/
inductive Next where
  | rest (d : Delivery)
  /-- It makes one more attempt, at the given contact. -/
  | attempt (contact : Contact)
  | delivered
  | fault (f : DeliveryFault)

/-- The delivery is given up after a failure. -/
def giveUp (d : Delivery) (failure : DispatchFailure) : Next :=
  .fault ⟨d.target, failure, d.attempts⟩

/-- The contact of the next attempt. -/
def nextContact (d : Delivery) : Contact := d.contacts.getD (d.attempts % d.contacts.length) default

/-- Takes in the report on the current request. -/
def report (policy : RoutePolicy) (now : Nat) (d : Delivery) : Report → Next
  | .delivered => .delivered
  | .dropped => d.giveUp .channelClosed
  | .failed text =>
    if policy.maxAttempts ≤ d.attempts then d.giveUp (.transport text)
    else .rest { d with phase := .resting (now + policy.backoff) (.transport text) }

/-- Ends the rest after a failure. -/
def wake (now : Nat) (d : Delivery) (failure : DispatchFailure) : Next :=
  if d.deadline ≤ now then d.giveUp failure else .attempt d.nextContact

/-! ## How a delivery goes on -/

/-- A report lets a delivery rest, as it is otherwise, after a failure only. -/
theorem report_eq_rest {policy : RoutePolicy} {now : Nat} {d d' : Delivery} {answer : Report}
    (h : d.report policy now answer = .rest d') :
    ∃ text, d' = { d with phase := .resting (now + policy.backoff) (.transport text) } := by
  cases answer with
  | delivered => cases h
  | dropped => cases h
  | failed text =>
    simp only [report] at h
    split at h
    · cases h
    · cases h
      exact ⟨text, rfl⟩

/-- A report leads to no further attempt at once. -/
theorem report_ne_attempt {policy : RoutePolicy} {now : Nat} {d : Delivery} {answer : Report}
    {c : Contact} : d.report policy now answer ≠ .attempt c := by
  intro h
  cases answer with
  | delivered => cases h
  | dropped => cases h
  | failed text =>
    simp only [report] at h
    split at h <;> cases h

/-- No delivery rests again at the end of a rest. -/
theorem wake_ne_rest {now : Nat} {d d' : Delivery} {failure : DispatchFailure} :
    d.wake now failure ≠ .rest d' := by
  intro h
  simp only [wake] at h
  split at h <;> cases h

/-- At the end of a rest there is a further attempt before the deadline only. -/
theorem lt_deadline_of_wake {now : Nat} {d : Delivery} {failure : DispatchFailure} {c : Contact}
    (h : d.wake now failure = .attempt c) : now < d.deadline := by
  simp only [wake] at h
  split at h
  · cases h
  · exact Nat.lt_of_not_le ‹_›

end Delivery

end ParticleMesh
