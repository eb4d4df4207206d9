/-
  A script told in one go.

  * `Tale`: how a particle ends, the calls made for it and where it is sent;
  * `Script.sequential`: the tale of a script whose calls are answered at once, each by
    the oracle;
  * `Script.Plays`: the calls between two points of that tale; `Script.Comes`: the tale
    comes to a call;
  * `Comes.kept`: the progress at that point can be kept in the data of a particle;
  * `run_told`: a run on that data, with results that the oracle gave to calls already
    made, goes on with the same tale.
-/
import ParticleMesh.Proofs.Keys
import ParticleMesh.Proofs.Progress
import ParticleMesh.Record.Cache
import ParticleMesh.Script.Run

namespace ParticleMesh

/-- What comes of a particle. -/
structure Tale where
  verdict : Verdict
  /-- The calls made for it, in order. -/
  calls : List CallRequest
  /-- The peers that it is sent to, each with the data it has then. -/
  sends : List (PeerId × Bytes)

def Tale.after (t : Tale) (cs : List CallRequest) : Tale := { t with calls := cs ++ t.calls }

namespace Script

variable {oracle : CallRequest → CallResult} {is is' : List Instruction} {p p' : Progress}
  {cs : List CallRequest} {c : CallRequest}

/-- The tale of the instructions that are left, from the given progress on. -/
def tell (oracle : CallRequest → CallResult) : List Instruction → Progress → Tale
  | [], _ => ⟨.completed, [], []⟩
  | .next q :: is, p =>
    let peers := fanOut (.next q :: is)
    let data := Progress.bytes { p with cursor := p.cursor + peers.length }
    ⟨.completed, [], peers.map fun peer => (peer, data)⟩
  | .call service function args :: is, p =>
    match values? p.results args with
    | .error f => ⟨.faulted f.message, [], []⟩
    | .ok vs =>
      let c : CallRequest := ⟨UInt32.ofNat p.cursor, service, function, vs⟩
      match oracle c with
      | .error m => ⟨.faulted (Fault.callFailed c.call m).message, [c], []⟩
      | .ok v => (tell oracle is ⟨p.cursor + 1, p.results ++ [v]⟩).after [c]

/-- The tale of a script on data, all its calls being answered at once. -/
def sequential (oracle : CallRequest → CallResult) (script : String) (data : Bytes) : Tale :=
  match parse? script with
  | .error (line, e) => ⟨.faulted (Fault.malformedScript line e).message, [], []⟩
  | .ok program =>
    match Progress.ofData? data with
    | none => ⟨.faulted Fault.invalidData.message, [], []⟩
    | some p => tell oracle (program.drop p.cursor) p

/-! ## Points of a tale -/

/-- The call that comes next, and the instructions after it. -/
def nextCall? (p : Progress) : List Instruction → Option (CallRequest × List Instruction)
  | .call service function args :: is =>
    match values? p.results args with
    | .ok vs => some (⟨UInt32.ofNat p.cursor, service, function, vs⟩, is)
    | .error _ => none
  | _ => none

/-- Some calls, each answered with a value, lead from a point to another. -/
inductive Plays (oracle : CallRequest → CallResult) (is : List Instruction) (p : Progress) :
    List CallRequest → List Instruction → Progress → Prop
  | start : Plays oracle is p [] is p
  | call {cs c is' is'' p' v} : Plays oracle is p cs is' p' → nextCall? p' is' = some (c, is'') →
      oracle c = .ok v →
      Plays oracle is p (cs ++ [c]) is'' ⟨p'.cursor + 1, p'.results ++ [v]⟩

theorem nextCall?_eq_some (h : nextCall? p is = some (c, is')) :
    ∃ service function args vs, is = .call service function args :: is' ∧
      values? p.results args = .ok vs ∧ c = ⟨UInt32.ofNat p.cursor, service, function, vs⟩ := by
  unfold nextCall? at h
  split at h
  · split at h
    · rename_i hv
      cases h
      exact ⟨_, _, _, _, rfl, hv, rfl⟩
    · cases h
  · cases h

theorem nextCall?_call (h : nextCall? p is = some (c, is')) : c.call = UInt32.ofNat p.cursor := by
  obtain ⟨_, _, _, _, -, -, rfl⟩ := nextCall?_eq_some h
  rfl

theorem tell_after (t : Tale) (cs ds : List CallRequest) :
    (t.after ds).after cs = t.after (cs ++ ds) := by
  simp [Tale.after]

/-- A call that comes next is the next one of the tale. -/
theorem tell_call (h : nextCall? p is = some (c, is')) {v : Json} (hv : oracle c = .ok v) :
    tell oracle is p = (tell oracle is' ⟨p.cursor + 1, p.results ++ [v]⟩).after [c] := by
  obtain ⟨service, function, args, vs, rfl, hvs, rfl⟩ := nextCall?_eq_some h
  rw [tell, hvs]
  simp only [hv]

theorem tell_failed (h : nextCall? p is = some (c, is')) {m : String} (hm : oracle c = .error m) :
    tell oracle is p = ⟨.faulted (Fault.callFailed c.call m).message, [c], []⟩ := by
  obtain ⟨service, function, args, vs, rfl, hvs, rfl⟩ := nextCall?_eq_some h
  rw [tell, hvs]
  simp only [hm]

namespace Plays

/-- The tale from a point on is the rest of the tale. -/
theorem tell_eq (h : Plays oracle is p cs is' p') :
    tell oracle is p = (tell oracle is' p').after cs := by
  induction h with
  | start => rfl
  | call _ hc hv ih => rw [ih, tell_call hc hv, tell_after]

theorem cursor_eq (h : Plays oracle is p cs is' p') : p'.cursor = p.cursor + cs.length := by
  induction h with
  | start => rfl
  | call _ _ _ ih => simp only [ih, List.length_append, List.length_singleton]; omega

theorem rest_eq (h : Plays oracle is p cs is' p') : is' = is.drop cs.length := by
  induction h with
  | start => rfl
  | call _ hc _ ih =>
    obtain ⟨_, _, _, _, he, -, -⟩ := nextCall?_eq_some hc
    rw [List.length_append, List.length_singleton, ← List.drop_drop, ← ih, he]; rfl

/-- The numbers of the calls are those of their instructions. -/
theorem mem_call (h : Plays oracle is p cs is' p') :
    ∀ c ∈ cs, ∃ i < p'.cursor, c.call = UInt32.ofNat i := by
  induction h with
  | start => rintro c ⟨⟩
  | @call cs c is' is'' p' v _ hc hv ih =>
    intro d hd
    rcases List.mem_append.1 hd with hd | hd
    · obtain ⟨i, hi, he⟩ := ih d hd
      exact ⟨i, Nat.lt_succ_of_lt hi, he⟩
    · rw [List.mem_singleton.1 hd]
      exact ⟨p'.cursor, Nat.lt_succ_self _, nextCall?_call hc⟩

theorem stored (hs : ∀ c v, oracle c = .ok v → v.Stored) (hp : ∀ v ∈ p.results, v.Stored)
    (h : Plays oracle is p cs is' p') : ∀ v ∈ p'.results, v.Stored := by
  induction h with
  | start => exact hp
  | call _ _ hv ih =>
    intro w hw
    rcases List.mem_append.1 hw with hw | hw
    · exact ih w hw
    · rw [List.mem_singleton.1 hw]
      exact hs _ _ hv

end Plays

/-! ## Stops of a tale -/

variable {script : String} {data : Bytes}

/-- The tale of a script comes to a call, with the given progress and the given calls made. -/
structure Comes (oracle : CallRequest → CallResult) (script : String) (data : Bytes)
    (p : Progress) (cs : List CallRequest) (c : CallRequest) : Prop where
  plays : ∃ program start is is', parse? script = .ok program ∧
    Progress.ofData? data = some start ∧
    Plays oracle (program.drop start.cursor) start cs is p ∧ nextCall? p is = some (c, is')

/-- What the theory of a script rests on: there are fewer instructions than numbers of calls,
    the oracle gives values that can be stored, and the doubles in the data are read back. -/
structure Regular (oracle : CallRequest → CallResult) (script : String) (data : Bytes) : Prop where
  length_lt : ∀ program, parse? script = .ok program → program.length < 0x100000000
  stored : ∀ c v, oracle c = .ok v → v.Stored
  steady : ∀ p, Progress.ofData? data = some p → ∀ v ∈ p.results, v.Every Json.Steady

/-- The results are those that the oracle gave to some calls. -/
def Told (oracle : CallRequest → CallResult) (made : List CallRequest) (results : CallResults) :
    Prop :=
  ∀ x ∈ results.entries, ∃ c ∈ made, c.call = x.1 ∧ oracle c = x.2

/-- What a run may come to, when some calls were made before it: an end that is the end of
    the tale, or a call that the tale comes to. -/
inductive Tells (oracle : CallRequest → CallResult) (script : String) (data : Bytes)
    (made : List CallRequest) : Except Fault Outcome → Prop
  | fault {f : Fault} : sequential oracle script data = ⟨.faulted f.message, made, []⟩ →
      Tells oracle script data made (.error f)
  | done {bytes : Bytes} {peers : List PeerId} :
      sequential oracle script data = ⟨.completed, made, peers.map fun peer => (peer, bytes)⟩ →
      Tells oracle script data made (.ok ⟨bytes, peers, []⟩)
  | wait {p : Progress} {cs : List CallRequest} {c : CallRequest} :
      Comes oracle script data p cs c → made = cs ∨ made = cs ++ [c] →
      Tells oracle script data made (.ok ⟨p.bytes, [], [c]⟩)

theorem ofNat_ne {i j : ℕ} (hij : i < j) (hj : j < 0x100000000) :
    UInt32.ofNat i ≠ UInt32.ofNat j := by
  intro h
  have he := congrArg UInt32.toNat h
  rw [UInt32.toNat_ofNat', UInt32.toNat_ofNat'] at he
  omega

section
variable {program : List Instruction} {start : Progress} {i : Instruction}

theorem Plays.cursor_lt (h : Plays oracle (program.drop start.cursor) start cs (i :: is) p) :
    p.cursor < program.length := by
  have he := h.rest_eq
  rw [List.drop_drop, ← h.cursor_eq] at he
  by_contra hle
  rw [List.drop_eq_nil_of_le (by omega)] at he
  cases he

/-- The number of the next call is not that of a call before. -/
theorem Plays.call_ne (hr : Regular oracle script data) (hp : parse? script = .ok program)
    (h : Plays oracle (program.drop start.cursor) start cs (i :: is) p) :
    ∀ d ∈ cs, d.call ≠ UInt32.ofNat p.cursor := by
  intro d hd
  obtain ⟨j, hj, he⟩ := h.mem_call d hd
  rw [he]
  exact ofNat_ne hj (h.cursor_lt.trans (hr.length_lt program hp))

end

namespace Comes

/-- The call has another number than the calls before it. -/
theorem call_ne (hr : Regular oracle script data) (h : Comes oracle script data p cs c) :
    ∀ d ∈ cs, d.call ≠ c.call := by
  obtain ⟨program, start, is, is', hp, -, hplays, hc⟩ := h
  obtain ⟨_, _, _, _, rfl, -, rfl⟩ := nextCall?_eq_some hc
  exact hplays.call_ne hr hp

/-- The progress can be kept in data. -/
theorem kept (hr : Regular oracle script data) (h : Comes oracle script data p cs c) : p.Kept := by
  obtain ⟨program, start, is, is', hp, hstart, hplays, hc⟩ := h
  obtain ⟨_, _, _, _, rfl, -, -⟩ := nextCall?_eq_some hc
  have hlt := hplays.cursor_lt.trans (hr.length_lt program hp)
  have hk := Progress.ofData?_kept hstart (hr.steady start hstart)
  refine ⟨?_, hplays.stored hr.stored hk.stored⟩
  rw [Json.Reader.wordBound]; omega

end Comes

section
variable {program : List Instruction} {start : Progress} {answers : CallResults}
  {made : List CallRequest}

theorem sequential_eq (hp : parse? script = .ok program)
    (hd : Progress.ofData? data = some start) :
    sequential oracle script data = tell oracle (program.drop start.cursor) start := by
  simp only [sequential, hp, hd]

/-- A known result is that of the next call, since no call before has its number. -/
theorem Plays.answered (hr : Regular oracle script data) (hp : parse? script = .ok program)
    {service function : String} {args : List Argument}
    (h : Plays oracle (program.drop start.cursor) start cs (.call service function args :: is) p)
    (hm : made = cs ∨ ∃ c is', nextCall? p (.call service function args :: is) = some (c, is') ∧
      made = cs ++ [c])
    (ha : Told oracle made answers) {r : CallResult}
    (hget : answers.get? (UInt32.ofNat p.cursor) = some r) :
    ∃ c, nextCall? p (.call service function args :: is) = some (c, is) ∧ made = cs ++ [c] ∧
      oracle c = r := by
  have hnew := h.call_ne hr hp
  obtain ⟨d, hd, hdc, hdr⟩ := ha _ (Assoc.mem_entries_of_get? hget)
  obtain ⟨c, is', hc, rfl⟩ : ∃ c is', nextCall? p (.call service function args :: is) =
      some (c, is') ∧ made = cs ++ [c] := by
    rcases hm with rfl | hm
    · exact absurd hdc (hnew d hd)
    · exact hm
  obtain rfl : d = c := by
    rcases List.mem_append.1 hd with hd | hd
    · exact absurd hdc (hnew d hd)
    · exact List.mem_singleton.1 hd
  obtain ⟨_, _, _, _, he, -, -⟩ := nextCall?_eq_some hc
  cases he
  exact ⟨d, hc, rfl, hdr⟩

/-- Instructions that are run with results of the calls made so far: what comes of them is
    what the tale says. -/
theorem proceed_told (hr : Regular oracle script data) (hprogram : parse? script = .ok program)
    (hstart : Progress.ofData? data = some start) (ha : Told oracle made answers) :
    ∀ {is : List Instruction} {p : Progress} {cs : List CallRequest},
      Plays oracle (program.drop start.cursor) start cs is p →
      (made = cs ∨ ∃ c is', nextCall? p is = some (c, is') ∧ made = cs ++ [c]) →
      Tells oracle script data made
        ((proceed answers is p).map fun stop => ⟨stop.progress.bytes, stop.next, stop.calls⟩) := by
  have hseq := @sequential_eq oracle _ _ _ _ hprogram hstart
  -- where no call comes next, all calls that were made are told already
  have hend : ∀ {is p cs}, nextCall? p is = none →
      (made = cs ∨ ∃ c is', nextCall? p is = some (c, is') ∧ made = cs ++ [c]) → made = cs := by
    rintro is p cs hnone (hm | ⟨c, is', hc, -⟩)
    · exact hm
    · rw [hnone] at hc; cases hc
  intro is
  induction is with
  | nil =>
    intro p cs h hm
    obtain rfl := hend rfl hm
    refine .done ?_
    rw [hseq, h.tell_eq, tell, Tale.after, List.append_nil]; rfl
  | cons i is ih =>
    intro p cs h hm
    cases i with
    | next q =>
      obtain rfl := hend rfl hm
      refine .done ?_
      rw [hseq, h.tell_eq, tell, Tale.after, List.append_nil]
    | call service function args =>
      rw [proceed]
      cases hget : answers.get? (UInt32.ofNat p.cursor) with
      | none =>
        cases hv : values? p.results args with
        | error f =>
          obtain rfl := hend (by rw [nextCall?, hv]) hm
          refine .fault ?_
          rw [hseq, h.tell_eq, tell, hv, Tale.after, List.append_nil]
        | ok vs =>
          have hc : nextCall? p (.call service function args :: is) =
              some (⟨UInt32.ofNat p.cursor, service, function, vs⟩, is) := by
            rw [nextCall?, hv]
          refine .wait ⟨program, start, _, is, hprogram, hstart, h, hc⟩ ?_
          rcases hm with hm | ⟨c, is', hc', hm⟩
          · exact .inl hm
          · rw [hc] at hc'
            cases hc'
            exact .inr hm
      | some r =>
        obtain ⟨c, hc, rfl, hcr⟩ := h.answered hr hprogram hm ha hget
        cases r with
        | ok v => exact ih (h.call hc hcr) (.inl rfl)
        | error m =>
          refine .fault ?_
          rw [hseq, h.tell_eq, tell_failed hc hcr, nextCall?_call hc]; rfl

end

theorem run_eq {program : List Instruction} (hp : parse? script = .ok program)
    (hd : Progress.ofData? data = some p) (answers : CallResults) :
    run script data answers = (proceed answers (program.drop p.cursor) p).map
      fun stop => ⟨stop.progress.bytes, stop.next, stop.calls⟩ := by
  rw [run, hp]
  simp only [hd]
  cases proceed answers (program.drop p.cursor) p with
  | error f => rfl
  | ok stop => rfl

/-- **A run on the data of a particle goes on with the tale**, whatever results it has: the
    particle is as it was at the start, or as it was when it asked for the last call made. -/
theorem run_told (hr : Regular oracle script data) {answers : CallResults}
    {made : List CallRequest} (ha : Told oracle made answers) {now : Bytes}
    (hnow : (now = data ∧ made = []) ∨
      ∃ p cs c, Comes oracle script data p cs c ∧ now = p.bytes ∧ made = cs ++ [c]) :
    Tells oracle script data made (run script now answers) := by
  rcases hnow with ⟨rfl, rfl⟩ | ⟨p, cs, c, hcomes, rfl, rfl⟩
  · cases hp : parse? script with
    | error x =>
      obtain ⟨line, e⟩ := x
      rw [run, hp]
      exact .fault (by rw [sequential, hp])
    | ok program =>
      cases hd : Progress.ofData? now with
      | none =>
        rw [run, hp]
        simp only [hd]
        exact .fault (by simp only [sequential, hp, hd])
      | some p =>
        rw [run_eq hp hd]
        exact proceed_told hr hp hd ha .start (.inl rfl)
  · have hkept := hcomes.kept hr
    obtain ⟨program, start, is, is', hp, hd, hplays, hc⟩ := hcomes
    have hrest := hplays.rest_eq
    rw [List.drop_drop, ← hplays.cursor_eq] at hrest
    rw [run_eq hp (Progress.ofData?_bytes hkept), ← hrest]
    exact proceed_told hr hp hd ha hplays (.inr ⟨c, is', hc, rfl⟩)

end Script

end ParticleMesh
