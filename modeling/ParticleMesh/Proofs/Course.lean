/-
  Runs of a node with a script storage.

  A run is any list of deeds at any times: moves of the node's machine, looks for due scripts,
  happenings that the storage takes in one by one and in order, commands, and what else the loop
  and the holders of the node do.

  * `Node.perform` and `Node.run` make deeds, `Deed.added?` is the script that one adds;
  * `notifyStorage_eq_run`: taking in all that has happened is taking it in one by one;
  * `goesOn_settle`: what a node does by itself is such a run.
-/
import ParticleMesh.Node.Basic
import ParticleMesh.Proofs.Ledger

namespace ParticleMesh.Node

variable {n n' n'' : Node} {s : NodeStorage} {now : ℕ}

/-! ## Deeds -/

/-- The storage takes in the next happening, if there is one and the storage runs. -/
def hear (n : Node) : Node :=
  match n.runningStorage? with
  | none => n
  | some s =>
    match n.pipeline.journal[s.seen]? with
    | none => n
    | some h =>
      { n with storage := some { s with storage := s.storage.onEvent h, seen := s.seen + 1 } }

/-- What goes on in a node with a script storage. -/
inductive Deed where
  | move (m : Move)
  /-- The storage sends out the scripts that are due, and cleans up. -/
  | tick
  | hear
  | add (id : ScriptId) (source : String) (interval : Option ℕ)
  | remove (id : ScriptId)
  /-- The loop of the node and its holders go on. -/
  | turn (nextSweep : ℕ) (network : List NetworkEvent) (held isRunning : Bool)

def perform (n : Node) (now : ℕ) : Deed → Node
  | .move m => n.move now m
  | .tick => n.runScripts now
  | .hear => n.hear
  | .add id source interval => n.onStorage (·.add id source interval)
  | .remove id => n.onStorage fun s => (s.remove id).2
  | .turn nextSweep network held isRunning =>
    { n with nextSweep := nextSweep, network := network, held := held, isRunning := isRunning }

/-- The node after some deeds, each at its time. -/
def run (n : Node) (ds : List (ℕ × Deed)) : Node := ds.foldl (fun n d => n.perform d.1 d.2) n

/-- The identifier of the script that a deed adds. -/
def Deed.added? : Deed → Option ScriptId
  | .add id _ _ => some id
  | .move _ | .tick | .hear | .remove _ | .turn .. => none

/-! ## The course of a node -/

theorem run_append (n : Node) (ds es : List (ℕ × Deed)) : n.run (ds ++ es) = (n.run ds).run es :=
  List.foldl_append

theorem runningStorage?_eq_some_iff :
    n.runningStorage? = some s ↔ n.storage = some s ∧ s.isRunning = true :=
  Option.filter_eq_some_iff

theorem hear_eq {x : Happening} (hs : n.runningStorage? = some s)
    (hx : n.pipeline.journal[s.seen]? = some x) : n.hear =
      { n with storage := some { s with storage := s.storage.onEvent x, seen := s.seen + 1 } } := by
  rw [hear, hs]
  dsimp only
  rw [hx]

theorem notifyStorage_eq (hs : n.runningStorage? = some s) : n.notifyStorage =
    { n with
      storage := some
        { s with
          storage := (n.pipeline.journal.drop s.seen).foldl ScriptStorage.onEvent s.storage
          seen := n.pipeline.journal.length } } := by
  obtain ⟨hs, hrun⟩ := runningStorage?_eq_some_iff.1 hs
  rw [notifyStorage, hs, Option.map_some, if_pos hrun]

/-- To take in all that has happened is to take it in one by one. -/
theorem notifyStorage_eq_run (now : ℕ) : ∀ (k : ℕ) {n : Node} {s : NodeStorage},
    n.runningStorage? = some s → s.seen + k = n.pipeline.journal.length →
    n.notifyStorage = n.run (List.replicate k (now, .hear))
  | 0, n, s, hs, hk => by
    rw [notifyStorage_eq hs, List.drop_eq_nil_of_le (by omega), List.foldl_nil,
      show n.pipeline.journal.length = s.seen by omega]
    show ({ n with storage := some s } : Node) = n
    rw [← (runningStorage?_eq_some_iff.1 hs).1]
  | k + 1, n, s, hs, hk => by
    have hlt : s.seen < n.pipeline.journal.length := by omega
    have hhear := hear_eq hs (List.getElem?_eq_getElem hlt)
    have hs' : n.hear.runningStorage? = some { s with
        storage := s.storage.onEvent n.pipeline.journal[s.seen], seen := s.seen + 1 } := by
      rw [hhear]
      exact runningStorage?_eq_some_iff.2 ⟨rfl, (runningStorage?_eq_some_iff.1 hs).2⟩
    have ih := notifyStorage_eq_run now k hs' (by
      rw [hhear]
      show s.seen + 1 + k = n.pipeline.journal.length
      omega)
    rw [List.replicate_succ]
    show _ = n.hear.run _
    rw [← ih, notifyStorage_eq hs', notifyStorage_eq hs, hhear, List.drop_eq_getElem_cons hlt,
      List.foldl_cons]
    rfl

/-- A node goes on to another at a time by deeds none of which adds a script. -/
def GoesOn (now : ℕ) (n n' : Node) : Prop :=
  ∃ ds : List (ℕ × Deed), n' = n.run ds ∧ ∀ d ∈ ds, d.1 = now ∧ d.2.added? = none

theorem GoesOn.refl (now : ℕ) (n : Node) : GoesOn now n n := ⟨[], rfl, by simp⟩

theorem GoesOn.trans (h : GoesOn now n n') (h' : GoesOn now n' n'') : GoesOn now n n'' := by
  obtain ⟨ds, rfl, hds⟩ := h
  obtain ⟨es, rfl, hes⟩ := h'
  refine ⟨ds ++ es, (run_append n ds es).symm, fun d hd => ?_⟩
  rcases List.mem_append.1 hd with hd | hd
  · exact hds d hd
  · exact hes d hd

theorem GoesOn.of_perform {d : Deed} (hd : d.added? = none) : GoesOn now n (n.perform now d) :=
  ⟨[(now, d)], rfl, by simpa using hd⟩

theorem GoesOn.move (m : Move) : GoesOn now n (n.move now m) := .of_perform (d := .move m) rfl

theorem GoesOn.turn (nextSweep : ℕ) (network : List NetworkEvent) (held isRunning : Bool) :
    GoesOn now n { n with
      nextSweep := nextSweep, network := network, held := held, isRunning := isRunning } :=
  .of_perform (d := .turn nextSweep network held isRunning) rfl

theorem GoesOn.of_timely (hn : n.timely now = some n') : GoesOn now n n' := by
  rw [timely] at hn
  split at hn
  · cases hn
    exact .move _
  · split at hn
    · cases hn
      exact (GoesOn.move .sweep).trans (.turn _ _ _ _)
    · split at hn
      · cases hn
        exact .of_perform (d := .tick) rfl
      · cases hn

theorem GoesOn.of_notifyStorage (hn : n.storageIsBehind = true) :
    GoesOn now n n.notifyStorage := by
  rw [storageIsBehind] at hn
  split at hn
  · cases hn
  · rename_i s hs
    have hlt := of_decide_eq_true hn
    rw [notifyStorage_eq_run now (n.pipeline.journal.length - s.seen) hs (by omega)]
    refine ⟨_, rfl, fun d hd => ?_⟩
    rw [List.eq_of_mem_replicate hd]
    exact ⟨rfl, rfl⟩

theorem GoesOn.of_busy (hn : n.busy now = some n') : GoesOn now n n' := by
  rw [busy] at hn
  split at hn
  · cases hn
    exact .move _
  · split at hn
    · cases hn
      exact .move _
    · split at hn
      · cases hn
        exact .of_notifyStorage (by assumption)
      · cases hn

theorem GoesOn.of_loopStep (hn : n.loopStep now = some n') : GoesOn now n n' := by
  rw [loopStep] at hn
  split at hn
  · cases hn
  split at hn
  · cases hn
    exact .move _
  split at hn
  · rename_i e es _
    have hturn : GoesOn now n { n with network := es } := .turn _ _ _ _
    cases e with
    | particle bs =>
      cases hn
      exact hturn.trans (.move _)
    | connection e =>
      cases hn
      exact hturn.trans (.move _)
  · split at hn
    · cases hn
    · cases hn
      exact (GoesOn.move .drain).trans (.turn _ _ _ _)

theorem GoesOn.of_endOldestRun (hn : n.endOldestRun now = some n') : GoesOn now n n' := by
  rw [endOldestRun] at hn
  split at hn
  · cases hn
  · obtain ⟨⟨i, a⟩, -, rfl⟩ := Option.map_eq_some_iff.1 hn
    exact .move _

/-- What a node does by itself are deeds. -/
theorem GoesOn.of_next (hn : n.next now = some n') : GoesOn now n n' := by
  rw [next] at hn
  simp only [Option.orElse_eq_orElse, Option.orElse_eq_or, Option.or_eq_some_iff] at hn
  obtain hn | ⟨-, hn | ⟨-, hn | ⟨-, hn⟩⟩⟩ := hn
  · exact .of_timely hn
  · exact .of_busy hn
  · exact .of_loopStep hn
  · exact .of_endOldestRun hn

theorem goesOn_settle (now : ℕ) : ∀ (k : ℕ) (n : Node), GoesOn now n (settle now k n)
  | 0, n => .refl now n
  | k + 1, n => by
    rw [settle]
    cases hn : n.next now with
    | none => exact .refl now n
    | some n' => exact (GoesOn.of_next hn).trans (goesOn_settle now k n')

end ParticleMesh.Node
