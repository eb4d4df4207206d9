/-
  The results of a script and the references to them.

  * `callsBefore`: the number of calls before a line, which is the place of a result;
  * `after`: the data that some runs leave one after another, from no data on;
  * `Supplied`: the value that one of these runs was given for a line;
  * `Tallies`: the results are the values that were supplied for the calls so far, each at the
    place of its call; one run (`Tallies.takesIn`, `Tallies.fansOut`) keeps this;
  * `after_results`: so a reference is to the value supplied for the call of that place, and a
    call that refers to a later one, or to itself, fails.
-/
import ParticleMesh.Proofs.Intake

namespace ParticleMesh

open Json Json.Reader

namespace Script

variable {script : String} {program : List Instruction} {given : List CallResults}
  {answers : CallResults} {data : Bytes} {p : Progress} {i j k n : ℕ} {v : Json}
  {vs : List Json} {peers : List PeerId} {args : List Argument}

def Instruction.isCall : Instruction → Bool
  | .call .. => true
  | .next _ => false

/-- The number of calls before a line. -/
def callsBefore (program : List Instruction) (i : ℕ) : ℕ :=
  (program.take i).countP Instruction.isCall

/-- Whether a line is a call. -/
def CallAt (program : List Instruction) (i : ℕ) : Prop :=
  ∃ service function args, program[i]? = some (.call service function args)

/-- The data that runs of a script leave one after another, the first of them on no data. -/
def after (script : String) (given : List CallResults) : Except Fault Bytes :=
  given.foldlM (fun data answers => (run script data answers).map (·.data)) []

/-- A run from line `k` on comes to line `i`, as all lines before it are calls with values. -/
structure Reaches (program : List Instruction) (answers : CallResults) (k i : ℕ) : Prop where
  le : k ≤ i
  answered : ∀ j, k ≤ j → j < i → ∃ v, Answered program answers j (.ok v)

/-- In a row of runs, the one that passed the call at line `i` was given the value `v` for it. -/
inductive Supplied (script : String) (program : List Instruction) :
    List CallResults → ℕ → Json → Prop
  | taken {given : List CallResults} {answers : CallResults} {data : Bytes} {p : Progress} {i : ℕ}
      {v : Json} : after script given = .ok data →
      Progress.ofData? data = some p → Reaches program answers p.cursor i →
      Answered program answers i (.ok v) → Supplied script program (given ++ [answers]) i v
  | before {given : List CallResults} {answers : CallResults} {i : ℕ} {v : Json} :
      Supplied script program given i v → Supplied script program (given ++ [answers]) i v

/-- The results so far are the values supplied for the calls before the cursor, each at the
    place of its call. -/
structure Tallies (script : String) (program : List Instruction) (given : List CallResults)
    (p : Progress) : Prop where
  cursor_le : p.cursor ≤ program.length
  length_eq : p.results.length = callsBefore program p.cursor
  result_iff : ∀ i, CallAt program i → ∀ v,
    p.results[callsBefore program i]? = some v ↔ Supplied script program given i v

/-- The value of an argument: a literal is its own, a reference has the value that was supplied
    for the call of its place. -/
inductive Resolves (script : String) (program : List Instruction) (given : List CallResults) :
    Argument → Json → Prop
  | literal (v : Json) : Resolves script program given (.literal v) v
  | result {i : ℕ} {v : Json} : CallAt program i → Supplied script program given i v →
      Resolves script program given (.result (callsBefore program i)) v

/-! ## Places of calls -/

theorem callsBefore_succ {line : Instruction} (h : program[i]? = some line) :
    callsBefore program (i + 1) = callsBefore program i + line.isCall.toNat := by
  rw [callsBefore, List.take_add_one, h, List.countP_append, callsBefore]
  cases line <;> rfl

theorem callsBefore_call (h : CallAt program i) :
    callsBefore program (i + 1) = callsBefore program i + 1 := by
  obtain ⟨_, _, _, h⟩ := h
  exact callsBefore_succ h

theorem callsBefore_mono (h : i ≤ j) : callsBefore program i ≤ callsBefore program j :=
  ((List.take_prefix_take_left h).sublist).countP_le

/-- A call has a place of its own. -/
theorem callsBefore_lt (hi : CallAt program i) (h : i < j) :
    callsBefore program i < callsBefore program j := by
  have hle : callsBefore program (i + 1) ≤ callsBefore program j := callsBefore_mono h
  rw [callsBefore_call hi] at hle
  omega

/-- There is a call at every place before that of a line. -/
theorem exists_callAt : ∀ {i : ℕ}, n < callsBefore program i →
    ∃ j < i, CallAt program j ∧ callsBefore program j = n
  | 0, h => by
    rw [callsBefore, List.take_zero] at h
    cases h
  | i + 1, h => by
    by_cases hn : n < callsBefore program i
    · obtain ⟨j, hj, hc, he⟩ := exists_callAt hn
      exact ⟨j, Nat.lt_succ_of_lt hj, hc, he⟩
    · cases hline : program[i]? with
      | none =>
        have hge := List.getElem?_eq_none_iff.1 hline
        rw [callsBefore, List.take_of_length_le (by omega)] at h
        rw [callsBefore, List.take_of_length_le hge] at hn
        exact absurd h hn
      | some line =>
        rw [callsBefore_succ hline] at h
        cases line with
        | next q => exact absurd h hn
        | call service function args =>
          have hone : (Instruction.call service function args).isCall.toNat = 1 := rfl
          exact ⟨i, Nat.lt_succ_self i, ⟨_, _, _, hline⟩, by omega⟩

theorem callsBefore_takesIn (h : TakesIn program answers k vs) : ∀ {j : ℕ}, j ≤ vs.length →
    callsBefore program (k + j) = callsBefore program k + j
  | 0, _ => rfl
  | j + 1, hj => by
    have hcall := (h.taken j _ (List.getElem?_eq_getElem (by omega))).call
    rw [← Nat.add_assoc, callsBefore_call hcall, callsBefore_takesIn h (by omega)]
    omega

theorem callsBefore_fansOut (h : FansOut program k peers) : ∀ {j : ℕ}, j ≤ peers.length →
    callsBefore program (k + j) = callsBefore program k
  | 0, _ => rfl
  | j + 1, hj => by
    have hnext := h.named j _ (List.getElem?_eq_getElem (by omega))
    rw [← Nat.add_assoc, callsBefore_succ hnext, callsBefore_fansOut h (by omega)]
    rfl

/-! ## Lines that are reached -/

theorem TakesIn.reaches (h : TakesIn program answers k vs) (hj : j ≤ vs.length) :
    Reaches program answers k (k + j) where
  le := Nat.le_add_right k j
  answered m hm hlt := by
    have ha := h.taken (m - k) _ (List.getElem?_eq_getElem (by omega))
    rw [show k + (m - k) = m by omega] at ha
    exact ⟨_, ha⟩

theorem Reaches.le_takesIn (hr : Reaches program answers k i)
    (h : TakesIn program answers k vs) : i ≤ k + vs.length := by
  by_contra hlt
  obtain ⟨v, hv⟩ := hr.answered (k + vs.length) (by omega) (by omega)
  exact h.stops v hv

/-- A run takes in all values up to a call without a result that it comes to. -/
theorem Reaches.eq_takesIn (hr : Reaches program answers k i)
    (h : TakesIn program answers k vs) (hnone : answers.get? (UInt32.ofNat i) = none) :
    i = k + vs.length := by
  have hle := hr.le
  have hge := hr.le_takesIn h
  by_contra hne
  have ha := h.taken (i - k) _ (List.getElem?_eq_getElem (by omega))
  rw [show k + (i - k) = i by omega] at ha
  cases hnone.symm.trans ha.result

/-! ## Results -/

theorem after_concat : after script (given ++ [answers]) =
    (after script given).bind fun data => (run script data answers).map (·.data) := by
  rw [after, after, List.foldlM_append]
  refine bind_congr fun data => ?_
  rw [List.foldlM_cons]
  cases run script data answers with
  | error f => rfl
  | ok o => rfl

/-- The value that is supplied for a line is that of the run that passed it. -/
theorem Supplied.concat (h : after script given = .ok data)
    (hd : Progress.ofData? data = some p)
    (hs : Supplied script program (given ++ [answers]) i v) :
    Supplied script program given i v ∨
      Reaches program answers p.cursor i ∧ Answered program answers i (.ok v) := by
  generalize he : given ++ [answers] = all at hs
  cases hs with
  | taken h' hd' hr ha =>
    obtain ⟨rfl, hlast⟩ := List.append_inj' he rfl
    obtain rfl := List.singleton_inj.1 hlast
    cases h.symm.trans h'
    cases hd.symm.trans hd'
    exact .inr ⟨hr, ha⟩
  | before hs =>
    obtain ⟨rfl, -⟩ := List.append_inj' he rfl
    exact .inl hs

theorem Supplied.callAt (h : Supplied script program given i v) : CallAt program i := by
  induction h with
  | taken _ _ _ ha => exact ha.call
  | before _ ih => exact ih

theorem Supplied.ne_nil (h : Supplied script program given i v) : given ≠ [] := by
  cases h with
  | taken => exact List.append_ne_nil_of_right_ne_nil _ (List.cons_ne_nil _ _)
  | before => exact List.append_ne_nil_of_right_ne_nil _ (List.cons_ne_nil _ _)

namespace Tallies

/-- Before the first run there are no results. -/
theorem start : Tallies script program [] Progress.start where
  cursor_le := Nat.zero_le _
  length_eq := rfl
  result_iff i _ v := by
    constructor
    · intro h
      cases h
    · intro h
      exact absurd rfl h.ne_nil

/-- A value was supplied only for lines that are passed. -/
theorem lt_cursor (h : Tallies script program given p) (hs : Supplied script program given i v) :
    i < p.cursor := by
  have hget := (h.result_iff i hs.callAt v).2 hs
  have hlt := (List.getElem?_eq_some_iff.1 hget).1
  rw [h.length_eq] at hlt
  by_contra hge
  exact absurd (callsBefore_mono (not_lt.1 hge)) (not_le.2 hlt)

/-- A run that takes in values supplies these for its calls. -/
theorem takesIn (h : Tallies script program given p) (hafter : after script given = .ok data)
    (hd : Progress.ofData? data = some p) (ht : TakesIn program answers p.cursor vs) :
    Tallies script program (given ++ [answers]) (p.after vs) where
  cursor_le := by
    have hle := ht.cursor_le
    rw [Nat.max_eq_right h.cursor_le] at hle
    exact hle
  length_eq := by
    rw [Progress.after, List.length_append, h.length_eq, callsBefore_takesIn ht le_rfl]
  result_iff i hi v := by
    rw [Progress.after]
    dsimp only
    by_cases hlt : i < p.cursor
    · -- the run starts behind this line
      have hplace := callsBefore_lt hi hlt
      rw [← h.length_eq] at hplace
      rw [List.getElem?_append_left hplace, h.result_iff i hi v]
      refine ⟨.before, fun hs => ?_⟩
      rcases hs.concat hafter hd with hs | ⟨hr, -⟩
      · exact hs
      · exact absurd hr.le (not_le.2 hlt)
    · obtain ⟨j, rfl⟩ := Nat.exists_eq_add_of_le (not_lt.1 hlt)
      constructor
      · intro hget
        have hj : j < vs.length := by
          by_contra hge
          have hmono : callsBefore program (p.cursor + vs.length) ≤
              callsBefore program (p.cursor + j) := callsBefore_mono (by omega)
          rw [callsBefore_takesIn ht le_rfl, ← h.length_eq, ← List.length_append] at hmono
          rw [List.getElem?_eq_none hmono] at hget
          cases hget
        rw [callsBefore_takesIn ht hj.le, ← h.length_eq, List.getElem?_append_right (by omega),
          Nat.add_sub_cancel_left] at hget
        exact .taken hafter hd (ht.reaches hj.le) (ht.taken j v hget)
      · intro hs
        rcases hs.concat hafter hd with hs | ⟨hr, ha⟩
        · exact absurd (h.lt_cursor hs) hlt
        · have hj : j < vs.length := by
            have hle := hr.le_takesIn ht
            refine lt_of_le_of_ne (by omega) ?_
            rintro rfl
            exact ht.stops v ha
          have ha' := (ht.taken j _ (List.getElem?_eq_getElem hj)).result
          rw [ha.result] at ha'
          cases ha'
          rw [callsBefore_takesIn ht hj.le, ← h.length_eq, List.getElem?_append_right (by omega),
            Nat.add_sub_cancel_left, List.getElem?_eq_getElem hj]

/-- A run that names peers passes no call. -/
theorem fansOut (h : Tallies script program given p) (hf : FansOut program p.cursor peers) :
    Tallies script program given ⟨p.cursor + peers.length, p.results⟩ where
  cursor_le := by
    have hle := hf.cursor_le
    rw [Nat.max_eq_right h.cursor_le] at hle
    exact hle
  length_eq := by rw [callsBefore_fansOut hf le_rfl, h.length_eq]
  result_iff := h.result_iff

end Tallies

/-- The values that a run takes in are supplied for its calls. -/
theorem Supplied.of_mem (h : after script given = .ok data) (hd : Progress.ofData? data = some p)
    (ht : TakesIn program answers p.cursor vs) (hv : v ∈ vs) :
    ∃ i, Supplied script program (given ++ [answers]) i v := by
  obtain ⟨j, hj⟩ := List.getElem?_of_mem hv
  have hlt := (List.getElem?_eq_some_iff.1 hj).1
  exact ⟨_, .taken h hd (ht.reaches hlt.le) (ht.taken j v hj)⟩

/-- The results that some runs leave are the values that were supplied for the calls. -/
theorem after_tallies (hp : parse? script = .ok program) (hlen : program.length < wordBound)
    (hs : ∀ i v, Supplied script program given i v → v.Stored)
    (h : after script given = .ok data) :
    ∃ p, Progress.ofData? data = some p ∧ p.Kept ∧ Tallies script program given p := by
  induction given using List.reverseRecOn generalizing data with
  | nil =>
    cases h
    exact ⟨.start, rfl, ⟨by decide, by rintro _ ⟨⟩⟩, .start⟩
  | append_singleton given answers ih =>
    cases hbefore : after script given with
    | error f =>
      rw [after_concat, hbefore] at h
      cases h
    | ok old =>
      obtain ⟨p, hd, hkept, ht⟩ := ih (fun i v hv => hs i v hv.before) hbefore
      cases hrun : run script old answers with
      | error f =>
        rw [after_concat, hbefore, Except.bind, hrun] at h
        cases h
      | ok o =>
        rw [after_concat, hbefore, Except.bind, hrun] at h
        cases h
        obtain ⟨vs, peers, hl⟩ := run_leaves hp hd hrun
        have hnew := (ht.takesIn hbefore hd hl.takesIn).fansOut hl.fansOut
        have hk : Progress.Kept
            ⟨p.cursor + vs.length + peers.length, p.results ++ vs⟩ := by
          refine ⟨hnew.cursor_le.trans_lt hlen, fun v hv => ?_⟩
          rcases List.mem_append.1 hv with hv | hv
          · exact hkept.stored v hv
          · obtain ⟨i, hi⟩ := Supplied.of_mem hbefore hd hl.takesIn hv
            exact hs i v hi
        refine ⟨_, ?_, hk, hnew⟩
        exact (congrArg Progress.ofData? hl.data_eq).trans (Progress.ofData?_bytes hk)

/-! ## References -/

/-- Arguments that refer to results that are there have values. -/
theorem values?_ok {rs : List Json} : ∀ {args : List Argument},
    (∀ n, .result n ∈ args → n < rs.length) →
    ∃ ws, values? rs args = .ok ws ∧ List.Forall₂ (fun a w => a.value? rs = .ok w) args ws
  | [], _ => ⟨[], rfl, .nil⟩
  | a :: args, h => by
    obtain ⟨ws, hws, hall⟩ := values?_ok fun n hn => h n (List.mem_cons_of_mem _ hn)
    obtain ⟨w, hw⟩ : ∃ w, a.value? rs = .ok w := by
      cases a with
      | literal v => exact ⟨v, rfl⟩
      | result n =>
        obtain ⟨w, hn⟩ : ∃ w, rs[n]? = some w :=
          ⟨_, List.getElem?_eq_getElem (h n List.mem_cons_self)⟩
        exact ⟨w, by rw [Argument.value?, hn]⟩
    exact ⟨w :: ws, by rw [values?, hw, hws]; rfl, .cons hw hall⟩

theorem lt_of_values? {rs : List Json} : ∀ {args : List Argument} {ws : List Json},
    values? rs args = .ok ws → ∀ n, .result n ∈ args → n < rs.length
  | a :: args, ws, h, n, hn => by
    rw [values?] at h
    cases ha : a.value? rs with
    | error f =>
      rw [ha] at h
      cases h
    | ok w =>
      cases hv : values? rs args with
      | error f =>
        rw [ha, hv] at h
        cases h
      | ok us =>
        rcases List.mem_cons.1 hn with rfl | hn
        · by_contra hge
          rw [Argument.value?, List.getElem?_eq_none (not_lt.1 hge)] at ha
          cases ha
        · exact lt_of_values? hv n hn

/-- The value of an argument is the one that was supplied for the call of that place. -/
theorem Tallies.resolves (h : Tallies script program given p) {a : Argument} {w : Json}
    (ha : a.value? p.results = .ok w) : Resolves script program given a w := by
  cases a with
  | literal v =>
    cases ha
    exact .literal _
  | result n =>
    cases hn : p.results[n]? with
    | none =>
      rw [Argument.value?, hn] at ha
      cases ha
    | some u =>
      rw [Argument.value?, hn] at ha
      cases ha
      have hlt := (List.getElem?_eq_some_iff.1 hn).1
      rw [h.length_eq] at hlt
      obtain ⟨i, -, hi, rfl⟩ := exists_callAt hlt
      exact .result hi ((h.result_iff i hi _).1 hn)

/-- **References are to the values supplied for earlier calls.** Let runs of a script follow one
    another, from no data on, and let all values that they take in be such as can be stored.
    The results are then one for each call before the cursor, the value that was supplied for
    it. A run that comes to a call without a result asks for it with the values that were
    supplied for the calls referred to, if all of these are before that call; else it fails for
    a reference to a call that is not. -/
theorem after_results (hp : parse? script = .ok program) (hlen : program.length < wordBound)
    (hs : ∀ i v, Supplied script program given i v → v.Stored)
    (h : after script given = .ok data) :
    ∃ p, Progress.ofData? data = some p ∧ Tallies script program given p ∧
      ∀ answers i service function args, Reaches program answers p.cursor i →
        program[i]? = some (.call service function args) →
        answers.get? (UInt32.ofNat i) = none →
        ((∀ n, .result n ∈ args → n < callsBefore program i) →
          ∃ o ws, run script data answers = .ok o ∧
            o.calls = [⟨UInt32.ofNat i, service, function, ws⟩] ∧
            List.Forall₂ (Resolves script program (given ++ [answers])) args ws) ∧
        ∀ n, .result n ∈ args → callsBefore program i ≤ n →
          ∃ m, .result m ∈ args ∧ callsBefore program i ≤ m ∧
            run script data answers = .error (.missingResult m) := by
  obtain ⟨p, hd, -, ht⟩ := after_tallies hp hlen hs h
  refine ⟨p, hd, ht, fun answers i service function args hr hline hnone => ?_⟩
  obtain ⟨vs, hv⟩ : ∃ vs, TakesIn program answers p.cursor vs := ⟨_, takesIn_taken rfl⟩
  obtain rfl := hr.eq_takesIn hv hnone
  have hrun := run_asks hp hd hv hline hnone
  have hnew := ht.takesIn h hd hv
  have hplaces : (p.results ++ vs).length = callsBefore program (p.cursor + vs.length) :=
    hnew.length_eq
  constructor
  · intro hall
    rw [← hplaces] at hall
    obtain ⟨ws, hws, hvalues⟩ := values?_ok hall
    rw [hws] at hrun
    exact ⟨_, ws, hrun, rfl, hvalues.imp fun _ _ => hnew.resolves⟩
  · intro n hn hge
    cases hws : values? (p.results ++ vs) args with
    | ok ws =>
      have hlt := lt_of_values? hws n hn
      rw [hplaces] at hlt
      exact absurd hge (not_le.2 hlt)
    | error f =>
      obtain ⟨m, hm, hle, rfl⟩ := values?_error hws
      rw [hplaces] at hle
      rw [hws] at hrun
      exact ⟨m, hm, hle, hrun⟩

set_option maxRecDepth 4000 in
theorem after_results_of_echoing :
    ∃ data o ws, after echoing [answeredOnce] = .ok data ∧ run echoing data ⟨[]⟩ = .ok o ∧
      o.calls = [⟨1, "s", "g", ws⟩] ∧
      List.Forall₂ (Resolves echoing [.call "s" "f" [], .call "s" "g" [.result 0]]
        [answeredOnce, ⟨[]⟩]) [.result 0] ws := by
  obtain ⟨data, hafter, hd⟩ : ∃ data, after echoing [answeredOnce] = .ok data ∧
      Progress.ofData? data = some ⟨1, [.arr [.null]]⟩ := ⟨_, rfl, rfl⟩
  have hp : parse? echoing = .ok [.call "s" "f" [], .call "s" "g" [.result 0]] := rfl
  have hs : ∀ i v, Supplied echoing [.call "s" "f" [], .call "s" "g" [.result 0]]
      [answeredOnce] i v → v.Stored := by
    intro i v (h : Supplied echoing _ ([] ++ [answeredOnce]) i v)
    rcases h.concat rfl rfl with h | ⟨-, ha⟩
    · exact absurd rfl h.ne_nil
    · have hv := ha.result
      rw [answeredOnce, Assoc.get?, Assoc.find?] at hv
      split at hv
      · cases hv
        exact ⟨⟨⟨trivial, trivial⟩, ⟨trivial, trivial⟩, trivial⟩, by decide⟩
      · cases hv
  obtain ⟨p, hp', -, hasks⟩ := after_results hp (by decide) hs hafter
  cases hd.symm.trans hp'
  have hr : Reaches [.call "s" "f" [], .call "s" "g" [.result 0]] ⟨[]⟩ 1 1 :=
    ⟨le_rfl, fun j hj hlt => absurd hlt (not_lt.2 hj)⟩
  obtain ⟨o, ws, ho, hcalls, hall⟩ := (hasks ⟨[]⟩ 1 "s" "g" [.result 0] hr rfl rfl).1 (by
    intro n hn
    cases List.mem_singleton.1 hn
    decide)
  exact ⟨data, o, ws, hafter, ho, hcalls, hall⟩

/-- A script of three calls, the last of which is given the result of the first. -/
def drifting : String := "call s f\ncall s g\ncall s h $0"

/-- The double that is written as `0.9565269861816759`; from that text the one next to it is
    read. -/
def drift : Double := ⟨false, 8615629157075238, -53⟩

/-- The results of the first two calls, of which each is given to a run of its own. -/
def driftingResults : List CallResults := [⟨[(0, .ok (.double drift))]⟩, ⟨[(1, .ok .null)]⟩]

/-- The third call is not given the double that was supplied for the first. -/
theorem after_drifts : ∃ program data o, parse? drifting = .ok program ∧
    after drifting driftingResults = .ok data ∧
    Supplied drifting program driftingResults 0 (.double drift) ∧
    run drifting data ⟨[]⟩ = .ok o ∧
    o.calls = [⟨2, "s", "h", [.double ⟨false, 8615629157075239, -53⟩]⟩] := by
  have hfirst : Supplied drifting [.call "s" "f" [], .call "s" "g" [], .call "s" "h" [.result 0]]
      ([] ++ [⟨[(0, .ok (.double drift))]⟩]) 0 (.double drift) :=
    .taken rfl rfl ⟨le_rfl, fun j _ hlt => absurd hlt (Nat.not_lt_zero j)⟩ ⟨⟨_, _, _, rfl⟩, rfl⟩
  exact ⟨_, _, _, rfl, rfl, hfirst.before, rfl, rfl⟩

end Script

end ParticleMesh
