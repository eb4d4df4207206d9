/-
  What one run of a script does.

  * `Answered`: a line is a call to which a result is known;
  * `TakesIn` and `FansOut`: the values of the calls from a line on, as many as are known, and
    the peers of the next lines from a line on;
  * `Asks`: a line is a call that is asked for;
  * `Leaves`: what a run leaves that has taken in values and named peers;
  * `Halts`: what comes of a run at the line after the values; `run_halts`: a run takes in
    values and comes to an end there;
  * `run_intake`: a run leaves what it should, or it fails at a call that has failed or lacks
    an argument.
-/
import ParticleMesh.Proofs.Resumption

namespace ParticleMesh

theorem Assoc.extends_refl {K V : Type} [DecidableEq K] (xs : Assoc K V) : xs.Extends xs :=
  fun _ _ h => h

namespace Script

variable {program : List Instruction} {answers : CallResults} {start p : Progress} {i j k : ℕ}
  {vs ws : List Json} {peers : List PeerId}

/-- A line of a program is a call, to which a result is known. -/
structure Answered (program : List Instruction) (answers : CallResults) (i : ℕ)
    (r : CallResult) : Prop where
  call : ∃ service function args, program[i]? = some (.call service function args)
  result : answers.get? (UInt32.ofNat i) = some r

/-- The values of the calls from a line on, up to a line that is no call with a value. -/
structure TakesIn (program : List Instruction) (answers : CallResults) (k : ℕ)
    (vs : List Json) : Prop where
  taken : ∀ i v, vs[i]? = some v → Answered program answers (k + i) (.ok v)
  stops : ∀ v, ¬ Answered program answers (k + vs.length) (.ok v)

/-- The peers of the next lines from a line on, up to a line that is no next line. -/
structure FansOut (program : List Instruction) (k : ℕ) (peers : List PeerId) : Prop where
  named : ∀ i q, peers[i]? = some q → program[k + i]? = some (.next q)
  stops : ∀ q, program[k + peers.length]? ≠ some (.next q)

/-- At some progress a script asks for a call: no result is known, and its arguments are there. -/
structure Asks (program : List Instruction) (answers : CallResults) (p : Progress)
    (c : CallRequest) : Prop where
  call_eq : c.call = UInt32.ofNat p.cursor
  line : ∃ args, program[p.cursor]? = some (.call c.service c.function args) ∧
    values? p.results args = .ok c.args
  unknown : answers.get? c.call = none

/-- What comes of a run at a line that is no call with a value. -/
inductive Halts (program : List Instruction) (answers : CallResults) (p : Progress) :
    Except Fault Stop → Prop
  | ends : program.length ≤ p.cursor → Halts program answers p (.ok ⟨p, [], []⟩)
  | fans {q : PeerId} {peers : List PeerId} : FansOut program p.cursor (q :: peers) →
      Halts program answers p
        (.ok ⟨⟨p.cursor + (q :: peers).length, p.results⟩, q :: peers, []⟩)
  | asks {c : CallRequest} : Asks program answers p c →
      Halts program answers p (.ok ⟨p, [], [c]⟩)
  | lacks {service function : String} {args : List Argument} {n : ℕ} :
      program[p.cursor]? = some (.call service function args) →
      answers.get? (UInt32.ofNat p.cursor) = none → .result n ∈ args → p.results.length ≤ n →
      Halts program answers p (.error (.missingResult n))
  | fails {text : String} : Answered program answers p.cursor (.error text) →
      Halts program answers p (.error (.callFailed (UInt32.ofNat p.cursor) text))

/-- What a run leaves that has taken in values and then named peers: the lines up to there are
    behind it, and it asks for the call that is next, if it named nobody and there is a line. -/
structure Leaves (program : List Instruction) (answers : CallResults) (start : Progress)
    (vs : List Json) (peers : List PeerId) (o : Outcome) : Prop where
  takesIn : TakesIn program answers start.cursor vs
  fansOut : FansOut program (start.cursor + vs.length) peers
  data_eq : o.data = Progress.bytes
    ⟨start.cursor + vs.length + peers.length, start.results ++ vs⟩
  next_eq : o.next = peers
  asks : peers = [] → start.cursor + vs.length < program.length →
    ∃ c, o.calls = [c] ∧ Asks program answers (start.after vs) c
  quiet : peers ≠ [] ∨ program.length ≤ start.cursor + vs.length → o.calls = []

/-! ## Rows of lines -/

/-- Two rows of values from the same line on are as long as each other, as neither goes on. -/
theorem TakesIn.length_le (hv : TakesIn program answers k vs) (hw : TakesIn program answers k ws) :
    ws.length ≤ vs.length := by
  by_contra hlt
  exact hv.stops _ (hw.taken vs.length _ (List.getElem?_eq_getElem (by omega)))

/-- The values that are taken in from a line on are determined. -/
theorem TakesIn.unique (hv : TakesIn program answers k vs) (hw : TakesIn program answers k ws) :
    vs = ws := by
  refine List.ext_getElem (le_antisymm (hw.length_le hv) (hv.length_le hw)) fun i hi hj => ?_
  have h := (hv.taken i _ (List.getElem?_eq_getElem hi)).result
  rw [(hw.taken i _ (List.getElem?_eq_getElem hj)).result] at h
  exact (Except.ok.inj (Option.some.inj h)).symm

theorem drop_of_getElem? {line : Instruction} (h : program[k]? = some line) :
    program.drop k = line :: program.drop (k + 1) := by
  obtain ⟨hk, rfl⟩ := List.getElem?_eq_some_iff.1 h
  exact List.drop_eq_getElem_cons hk

theorem takesIn_nil (h : ∀ v, ¬ Answered program answers k (.ok v)) :
    TakesIn program answers k [] where
  taken i v hv := by cases hv
  stops := h

theorem TakesIn.cons {v : Json} (hv : Answered program answers k (.ok v))
    (hvs : TakesIn program answers (k + 1) vs) : TakesIn program answers k (v :: vs) where
  taken
    | 0, w, hw => by
      cases hw
      exact hv
    | i + 1, w, hw => by
      have h := hvs.taken i w hw
      rwa [show k + 1 + i = k + (i + 1) by omega] at h
  stops w hw := by
    rw [List.length_cons, show k + (vs.length + 1) = k + 1 + vs.length by omega] at hw
    exact hvs.stops w hw

/-- A run takes in the values from the line on at which it starts. -/
theorem takesIn_taken : ∀ {is : List Instruction} {k : ℕ}, program.drop k = is →
    TakesIn program answers k (taken answers is k)
  | [], k, h => by
    refine takesIn_nil fun v hv => ?_
    obtain ⟨_, _, _, hc⟩ := hv.call
    rw [drop_of_getElem? hc] at h
    cases h
  | .next q :: is, k, h => by
    refine takesIn_nil fun v hv => ?_
    obtain ⟨_, _, _, hc⟩ := hv.call
    rw [drop_of_getElem? hc] at h
    cases h
  | .call service function args :: is, k, h => by
    have hline : program[k]? = some (.call service function args) := by
      rw [← List.head?_drop, h, List.head?_cons]
    have hrest : program.drop (k + 1) = is := by
      rw [drop_of_getElem? hline] at h
      exact (List.cons.inj h).2
    rw [taken]
    split
    · rename_i v hv
      exact (takesIn_taken hrest).cons ⟨⟨_, _, _, hline⟩, hv⟩
    · rename_i hnone
      exact takesIn_nil fun v hv => hnone v hv.result

theorem fansOut_nil (h : ∀ q, program[k]? ≠ some (.next q)) : FansOut program k [] where
  named i q hq := by cases hq
  stops := h

theorem FansOut.cons {q : PeerId} (hq : program[k]? = some (.next q))
    (h : FansOut program (k + 1) peers) : FansOut program k (q :: peers) where
  named
    | 0, r, hr => by
      cases hr
      exact hq
    | i + 1, r, hr => by
      have hn := h.named i r hr
      rwa [show k + 1 + i = k + (i + 1) by omega] at hn
  stops r hr := by
    rw [List.length_cons, show k + (peers.length + 1) = k + 1 + peers.length by omega] at hr
    exact h.stops r hr

theorem fansOut_fanOut : ∀ {is : List Instruction} {k : ℕ}, program.drop k = is →
    FansOut program k (fanOut is)
  | [], k, h => by
    refine fansOut_nil fun q hq => ?_
    rw [drop_of_getElem? hq] at h
    cases h
  | .call _ _ _ :: is, k, h => by
    refine fansOut_nil fun q hq => ?_
    rw [drop_of_getElem? hq] at h
    cases h
  | .next q :: is, k, h => by
    have hline : program[k]? = some (.next q) := by rw [← List.head?_drop, h, List.head?_cons]
    have hrest : program.drop (k + 1) = is := by
      rw [drop_of_getElem? hline] at h
      exact (List.cons.inj h).2
    exact (fansOut_fanOut hrest).cons hline

/-- The values that are taken in are results of calls. -/
theorem TakesIn.mem {v : Json} (h : TakesIn program answers k vs) (hv : v ∈ vs) :
    ∃ c, answers.get? c = some (.ok v) := by
  obtain ⟨i, hi⟩ := List.getElem?_of_mem hv
  exact ⟨_, (h.taken i v hi).result⟩

/-- The values that are taken in are those of lines of the program. -/
theorem TakesIn.cursor_le (h : TakesIn program answers k vs) :
    k + vs.length ≤ max k program.length := by
  rcases Nat.eq_zero_or_pos vs.length with h0 | hpos
  · omega
  · obtain ⟨_, _, _, hline⟩ :=
      (h.taken (vs.length - 1) _ (List.getElem?_eq_getElem (by omega))).call
    have hlt := (List.getElem?_eq_some_iff.1 hline).1
    omega

theorem FansOut.cursor_le (h : FansOut program k peers) :
    k + peers.length ≤ max k program.length := by
  rcases Nat.eq_zero_or_pos peers.length with h0 | hpos
  · omega
  · have hline := h.named (peers.length - 1) _ (List.getElem?_eq_getElem (by omega))
    have hlt := (List.getElem?_eq_some_iff.1 hline).1
    omega

/-- A run leaves the program at its end, or where it started. -/
theorem Leaves.cursor_le {o : Outcome} (h : Leaves program answers start vs peers o) :
    start.cursor + vs.length + peers.length ≤ max start.cursor program.length := by
  have hv := h.takesIn.cursor_le
  have hp := h.fansOut.cursor_le
  omega

/-! ## The line after the values -/

/-- A run comes to the line after the values that it takes in. -/
theorem proceed_takesIn (h : TakesIn program answers start.cursor vs) :
    proceed answers (program.drop start.cursor) start =
      proceed answers (program.drop (start.after vs).cursor) (start.after vs) := by
  have hrow := proceed_taken answers.extends_refl (program.drop start.cursor) start
  rw [List.drop_drop, ← h.unique (takesIn_taken rfl)] at hrow
  exact hrow

/-- An argument that is not there is a reference beyond the results. -/
theorem values?_error {rs : List Json} {f : Fault} : ∀ {args : List Argument},
    values? rs args = .error f → ∃ n, .result n ∈ args ∧ rs.length ≤ n ∧ f = .missingResult n
  | [], h => by cases h
  | .literal v :: args, h => by
    cases hv : values? rs args with
    | error g =>
      rw [values?, hv] at h
      cases h
      obtain ⟨n, hn, hlen, rfl⟩ := values?_error hv
      exact ⟨n, List.mem_cons_of_mem _ hn, hlen, rfl⟩
    | ok vs =>
      rw [values?, hv] at h
      cases h
  | .result n :: args, h => by
    cases hn : rs[n]? with
    | none =>
      rw [values?, Argument.value?, hn] at h
      cases h
      exact ⟨n, List.mem_cons_self, List.getElem?_eq_none_iff.1 hn, rfl⟩
    | some v =>
      cases hv : values? rs args with
      | error g =>
        rw [values?, Argument.value?, hn, hv] at h
        cases h
        obtain ⟨m, hm, hlen, rfl⟩ := values?_error hv
        exact ⟨m, List.mem_cons_of_mem _ hm, hlen, rfl⟩
      | ok vs =>
        rw [values?, Argument.value?, hn, hv] at h
        cases h

/-- At a line that is no call with a value a run comes to an end. -/
theorem proceed_halts (h : ∀ v, ¬ Answered program answers p.cursor (.ok v)) :
    Halts program answers p (proceed answers (program.drop p.cursor) p) := by
  have hf : FansOut program p.cursor (fanOut (program.drop p.cursor)) := fansOut_fanOut rfl
  cases hline : program[p.cursor]? with
  | none =>
    have hge := List.getElem?_eq_none_iff.1 hline
    rw [List.drop_eq_nil_of_le hge]
    exact .ends hge
  | some line =>
    rw [drop_of_getElem? hline] at hf ⊢
    cases line with
    | next q => exact .fans hf
    | call service function args =>
      rw [proceed]
      cases hr : answers.get? (UInt32.ofNat p.cursor) with
      | some r =>
        cases r with
        | ok v => exact absurd ⟨⟨_, _, _, hline⟩, hr⟩ (h v)
        | error text => exact .fails ⟨⟨_, _, _, hline⟩, hr⟩
      | none =>
        cases hv : values? p.results args with
        | ok given => exact .asks ⟨rfl, ⟨args, hline, hv⟩, hr⟩
        | error f =>
          obtain ⟨n, hn, hle, rfl⟩ := values?_error hv
          exact .lacks hline hr hn hle

section
variable {script : String} {data : Bytes}

/-- A run that gives an outcome could read the script and the data. -/
theorem exists_start {o : Outcome} (h : run script data answers = .ok o) :
    ∃ program start, parse? script = .ok program ∧ Progress.ofData? data = some start := by
  rw [run] at h
  cases hp : parse? script with
  | error x =>
    rw [hp] at h
    cases h
  | ok program =>
    cases hd : Progress.ofData? data with
    | none =>
      rw [hp] at h
      simp only [hd] at h
      cases h
    | some start => exact ⟨program, start, rfl, rfl⟩

/-- A run takes in values, and comes to an end at the line after them. -/
theorem run_halts (hp : parse? script = .ok program) (hd : Progress.ofData? data = some start)
    (answers : CallResults) : ∃ vs r, TakesIn program answers start.cursor vs ∧
      Halts program answers (start.after vs) r ∧ run script data answers =
        r.map fun stop => ⟨stop.progress.bytes, stop.next, stop.calls⟩ := by
  have ht : TakesIn program answers start.cursor
      (taken answers (program.drop start.cursor) start.cursor) := takesIn_taken rfl
  exact ⟨_, _, ht, proceed_halts ht.stops, by rw [run_eq hp hd, proceed_takesIn ht]⟩

/-- A run that gives an outcome has taken in values and named peers, and asks for a call only
    if it named nobody. -/
theorem run_leaves {o : Outcome} (hp : parse? script = .ok program)
    (hd : Progress.ofData? data = some start) (h : run script data answers = .ok o) :
    ∃ vs peers, Leaves program answers start vs peers o := by
  obtain ⟨vs, r, ht, hr, he⟩ := run_halts hp hd answers
  rw [he] at h
  cases hr with
  | ends hge =>
    cases h
    have hf : FansOut program (start.cursor + vs.length) [] := by
      refine fansOut_nil fun q hq => ?_
      have hlt := (List.getElem?_eq_some_iff.1 hq).1
      exact absurd hge (not_le.2 hlt)
    exact ⟨vs, [], ht, hf, rfl, rfl, fun _ hlt => absurd hge (not_le.2 hlt), fun _ => rfl⟩
  | fans hf =>
    cases h
    exact ⟨vs, _, ht, hf, rfl, rfl, nofun, fun _ => rfl⟩
  | asks hc =>
    cases h
    obtain ⟨args, hline, -⟩ := hc.line
    have hf : FansOut program (start.cursor + vs.length) [] := by
      refine fansOut_nil fun q hq => ?_
      rw [Progress.after, hq] at hline
      cases hline
    have hlt := (List.getElem?_eq_some_iff.1 hline).1
    refine ⟨vs, [], ht, hf, rfl, rfl, fun _ _ => ⟨_, rfl, hc⟩, ?_⟩
    rintro (hne | hge)
    · exact absurd rfl hne
    · exact absurd hlt (not_lt.2 hge)
  | lacks => cases h
  | fails => cases h

/-- A run fails at a call that has failed. -/
theorem run_callFailed {text : String} (hp : parse? script = .ok program)
    (hd : Progress.ofData? data = some start) (ht : TakesIn program answers start.cursor vs)
    (ha : Answered program answers (start.cursor + vs.length) (.error text)) :
    run script data answers =
      .error (.callFailed (UInt32.ofNat (start.cursor + vs.length)) text) := by
  obtain ⟨service, function, args, hline⟩ := ha.call
  rw [run_eq hp hd, proceed_takesIn ht, Progress.after]
  dsimp only
  rw [drop_of_getElem? hline, proceed]
  simp only [ha.result]
  rfl

/-- A run that comes to a call without a result asks for it, if the arguments are there. -/
theorem run_asks {service function : String} {args : List Argument}
    (hp : parse? script = .ok program) (hd : Progress.ofData? data = some start)
    (ht : TakesIn program answers start.cursor vs)
    (hline : program[start.cursor + vs.length]? = some (.call service function args))
    (hr : answers.get? (UInt32.ofNat (start.cursor + vs.length)) = none) :
    run script data answers = (values? (start.results ++ vs) args).map fun ws =>
      ⟨(start.after vs).bytes, [],
        [⟨UInt32.ofNat (start.cursor + vs.length), service, function, ws⟩]⟩ := by
  rw [run_eq hp hd, proceed_takesIn ht, Progress.after]
  dsimp only
  rw [drop_of_getElem? hline, proceed]
  simp only [hr]
  cases values? (start.results ++ vs) args with
  | error f => rfl
  | ok ws => rfl

/-- A run that fails does so at the line after the values that it takes in. -/
theorem run_error {f : Fault} (hp : parse? script = .ok program)
    (hd : Progress.ofData? data = some start) (h : run script data answers = .error f) :
    ∃ vs, TakesIn program answers start.cursor vs ∧
      Halts program answers (start.after vs) (.error f) := by
  obtain ⟨vs, r, ht, hr, he⟩ := run_halts hp hd answers
  rw [he] at h
  refine ⟨vs, ht, ?_⟩
  cases r with
  | ok stop => cases h
  | error g =>
    cases h
    exact hr

/-- **What one run does.** Let a run start at a line with some results. If it gives an outcome,
    it has taken in the values of the calls from that line on, as many as are known, and named
    the peers of all next lines right after them; the data holds the line after these and the
    results with the values, and a call is asked for exactly if nobody was named and there is a
    line, which is then that call. If a call after the values has failed, so does the run, with
    the number of that call. It fails for nothing else than that, or an argument that is not
    there. -/
theorem run_intake (hp : parse? script = .ok program) (hlen : program.length < 0x100000000)
    (hd : Progress.ofData? data = some start) :
    (∀ o, run script data answers = .ok o →
      ∃ vs peers, Leaves program answers start vs peers o ∧
        ∀ c ∈ o.calls, c.call.toNat = start.cursor + vs.length) ∧
    (∀ vs text, TakesIn program answers start.cursor vs →
      Answered program answers (start.cursor + vs.length) (.error text) →
      ∃ c, c.toNat = start.cursor + vs.length ∧
        run script data answers = .error (.callFailed c text)) ∧
    ∀ f, run script data answers = .error f → ∃ vs, TakesIn program answers start.cursor vs ∧
      ((∃ c text, Answered program answers (start.cursor + vs.length) (.error text) ∧
          c.toNat = start.cursor + vs.length ∧ f = .callFailed c text) ∨
        ∃ service function args n,
          program[start.cursor + vs.length]? = some (.call service function args) ∧
          answers.get? (UInt32.ofNat (start.cursor + vs.length)) = none ∧
          .result n ∈ args ∧ start.results.length + vs.length ≤ n ∧ f = .missingResult n) := by
  have hnat : ∀ {i line}, program[i]? = some line → (UInt32.ofNat i).toNat = i := by
    intro i line h
    have hi := (List.getElem?_eq_some_iff.1 h).1
    exact UInt32.toNat_ofNat_of_lt' (hi.trans hlen)
  refine ⟨fun o h => ?_, fun vs text ht ha => ?_, fun f h => ?_⟩
  · obtain ⟨vs, peers, hl⟩ := run_leaves hp hd h
    refine ⟨vs, peers, hl, fun c hc => ?_⟩
    by_cases hends : peers ≠ [] ∨ program.length ≤ start.cursor + vs.length
    · rw [hl.quiet hends] at hc
      cases hc
    · rw [not_or, not_not, not_le] at hends
      obtain ⟨d, hcalls, hd⟩ := hl.asks hends.1 hends.2
      rw [hcalls, List.mem_singleton] at hc
      obtain ⟨args, hline, -⟩ := hd.line
      rw [hc, hd.call_eq]
      exact hnat hline
  · obtain ⟨_, _, _, hline⟩ := ha.call
    exact ⟨_, hnat hline, run_callFailed hp hd ht ha⟩
  · obtain ⟨vs, ht, hh⟩ := run_error hp hd h
    refine ⟨vs, ht, ?_⟩
    cases hh with
    | fails ha =>
      obtain ⟨_, _, _, hline⟩ := ha.call
      exact .inl ⟨_, _, ha, hnat hline, rfl⟩
    | @lacks _ _ _ n hline hr hn hle =>
      rw [Progress.after, List.length_append] at hle
      exact .inr ⟨_, _, _, n, hline, hr, hn, hle, rfl⟩

set_option maxRecDepth 4000 in
theorem run_intake_of_echoing :
    (∃ o vs peers, run echoing [] answeredOnce = .ok o ∧
      Leaves [.call "s" "f" [], .call "s" "g" [.result 0]] answeredOnce Progress.start vs peers o ∧
      ∀ c ∈ o.calls, c.call.toNat = 0 + vs.length) ∧
    ∃ c, c.toNat = 1 ∧ run echoing [] answeredTwice = .error (.callFailed c "no") := by
  have hp : parse? echoing = .ok [.call "s" "f" [], .call "s" "g" [.result 0]] := rfl
  have hd : Progress.ofData? [] = some Progress.start := rfl
  obtain ⟨o, ho⟩ : ∃ o, run echoing [] answeredOnce = .ok o := ⟨_, rfl⟩
  obtain ⟨hleaves, -⟩ := run_intake hp (by decide) hd
  obtain ⟨-, hfails, -⟩ := run_intake hp (by decide) hd
  obtain ⟨vs, peers, hl, hc⟩ := hleaves o ho
  have hsecond : Answered [.call "s" "f" [], .call "s" "g" [.result 0]] answeredTwice 1
      (.error "no") := ⟨⟨_, _, _, rfl⟩, rfl⟩
  refine ⟨⟨o, vs, peers, ho, hl, hc⟩, hfails [.arr [.null]] "no" ⟨?_, ?_⟩ hsecond⟩
  · intro i v hv
    cases i with
    | zero =>
      cases hv
      exact ⟨⟨_, _, _, rfl⟩, rfl⟩
    | succ i => cases hv
  · intro v hv
    have he := hv.result.symm.trans hsecond.result
    cases he

end

end Script

end ParticleMesh
