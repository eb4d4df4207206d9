/-
  A script that is resumed goes on as if it were run again from the start.

  * `Assoc.Extends`: results to which others may have come;
  * `taken`: the values that a run takes in before it stops;
  * `proceed_taken`: with all results of an earlier run, a run may as well start where that
    one stopped;
  * `run_resumed`: so a run on the data that a stopped run left is a run on the data that
    this one had.
-/
import ParticleMesh.Proofs.Tale

namespace ParticleMesh

/-- Whether all values of some keys are kept; other keys may have values too. -/
def Assoc.Extends {K V : Type} [DecidableEq K] (later earlier : Assoc K V) : Prop :=
  ∀ k v, earlier.get? k = some v → later.get? k = some v

namespace Script

variable {answers later : CallResults} {is : List Instruction} {p : Progress} {stop : Stop}

/-- The progress after some calls, with their values. -/
def Progress.after (p : Progress) (vs : List Json) : Progress :=
  ⟨p.cursor + vs.length, p.results ++ vs⟩

/-- The values of the calls at the start of a program, the first of which has the number `n`,
    up to the first one without a value. -/
def taken (answers : CallResults) : List Instruction → ℕ → List Json
  | .call .. :: is, n =>
    match answers.get? (UInt32.ofNat n) with
    | some (.ok v) => v :: taken answers is (n + 1)
    | _ => []
  | _, _ => []

theorem Progress.after_nil (p : Progress) : p.after [] = p := by
  simp [after]

theorem Progress.after_cons (p : Progress) (v : Json) (vs : List Json) :
    p.after (v :: vs) = Progress.after ⟨p.cursor + 1, p.results ++ [v]⟩ vs := by
  simp [after]; omega

theorem taken_call {service function : String} {args : List Argument} {n : ℕ} {v : Json}
    (h : answers.get? (UInt32.ofNat n) = some (.ok v)) :
    taken answers (.call service function args :: is) n = v :: taken answers is (n + 1) := by
  simp [taken, h]

/-- The values that are taken in are results of calls. -/
theorem mem_taken {v : Json} : ∀ {is : List Instruction} {n : ℕ}, v ∈ taken answers is n →
    ∃ c, answers.get? c = some (.ok v)
  | [], _, h => by simp [taken] at h
  | .next _ :: _, _, h => by simp [taken] at h
  | .call _ _ _ :: is, n, h => by
    rw [taken] at h
    split at h
    · rename_i w hw
      rcases List.mem_cons.1 h with rfl | h
      · exact ⟨_, hw⟩
      · exact mem_taken h
    · cases h

/-- A run to which all results of an earlier one are known comes to the point where that one
    stopped taking values in. -/
theorem proceed_taken (hl : later.Extends answers) : ∀ (is : List Instruction) (p : Progress),
    proceed later is p = proceed later (is.drop (taken answers is p.cursor).length)
      (p.after (taken answers is p.cursor))
  | [], p => by simp [taken, Progress.after_nil]
  | .next q :: is, p => by simp [taken, Progress.after_nil]
  | .call service function args :: is, p => by
    cases hget : answers.get? (UInt32.ofNat p.cursor) with
    | none => simp [taken, hget, Progress.after_nil]
    | some r =>
      cases r with
      | error m => simp [taken, hget, Progress.after_nil]
      | ok v =>
        have hlater : later.get? (UInt32.ofNat p.cursor) = some (.ok v) := hl _ _ hget
        rw [taken_call hget, Progress.after_cons, List.length_cons, List.drop_succ_cons, proceed]
        simp only [hlater]
        exact proceed_taken hl is ⟨p.cursor + 1, p.results ++ [v]⟩

/-- A run that stops at a call has taken in all values that it can, and is still inside of the
    program. -/
theorem stop_of_calls : ∀ {is : List Instruction} {p : Progress},
    proceed answers is p = .ok stop → stop.calls ≠ [] →
      stop.progress = p.after (taken answers is p.cursor) ∧
      (taken answers is p.cursor).length < is.length
  | [], p, h, hc => by
    cases h
    exact absurd rfl hc
  | .next q :: is, p, h, hc => by
    cases h
    exact absurd rfl hc
  | .call service function args :: is, p, h, hc => by
    rw [proceed] at h
    cases hget : answers.get? (UInt32.ofNat p.cursor) with
    | none =>
      simp only [hget] at h
      cases hv : values? p.results args with
      | error f =>
        rw [hv] at h
        cases h
      | ok vs =>
        rw [hv] at h
        cases h
        simp [taken, hget, Progress.after_nil]
    | some r =>
      cases r with
      | error m =>
        simp only [hget] at h
        cases h
      | ok v =>
        simp only [hget] at h
        obtain ⟨hp, hlt⟩ := stop_of_calls h hc
        rw [taken_call hget, Progress.after_cons]
        exact ⟨hp, Nat.succ_lt_succ hlt⟩

section
variable {script : String} {data : Bytes} {program : List Instruction} {start : Progress}

/-- The progress at which a run stops at a call can be kept in data. -/
theorem kept_of_calls (hlen : program.length < 0x100000000) (hstart : start.Kept)
    (hs : ∀ c v, answers.get? c = some (.ok v) → v.Stored)
    (h : proceed answers (program.drop start.cursor) start = .ok stop) (hc : stop.calls ≠ []) :
    stop.progress.Kept := by
  obtain ⟨hp, hlt⟩ := stop_of_calls h hc
  rw [List.length_drop] at hlt
  rw [hp]
  constructor
  · rw [Progress.after, Json.Reader.wordBound]
    dsimp only
    omega
  · intro v hv
    rcases List.mem_append.1 hv with hv | hv
    · exact hstart.stored v hv
    · obtain ⟨c, hc⟩ := mem_taken hv
      exact hs c v hc

/-- **Resuming equals replaying.** Let a run of a script on some data stop at a call, and let
    results come to those that it knew. A run on the data that it left then gives what a run on
    the data it started with gives, be it an outcome or a fault. The script has fewer
    instructions than there are numbers of calls, the values that were known can be stored, and
    the doubles in the data are read back. -/
theorem run_resumed {o : Outcome}
    (hlen : ∀ program, parse? script = .ok program → program.length < 0x100000000)
    (hsteady : ∀ p, Progress.ofData? data = some p → ∀ v ∈ p.results, v.Every Json.Steady)
    (hs : ∀ c v, answers.get? c = some (.ok v) → v.Stored) (hl : later.Extends answers)
    (h : run script data answers = .ok o) (hc : o.calls ≠ []) :
    run script o.data later = run script data later := by
  cases hp : parse? script with
  | error x =>
    rw [run, hp] at h
    cases h
  | ok program =>
    cases hd : Progress.ofData? data with
    | none =>
      rw [run, hp] at h
      simp only [hd] at h
      cases h
    | some start =>
      rw [run_eq hp hd] at h
      obtain ⟨stop, hstop, rfl⟩ : ∃ stop,
          proceed answers (program.drop start.cursor) start = .ok stop ∧
            (⟨stop.progress.bytes, stop.next, stop.calls⟩ : Outcome) = o := by
        cases hstop : proceed answers (program.drop start.cursor) start with
        | error f =>
          rw [hstop] at h
          cases h
        | ok stop =>
          rw [hstop] at h
          cases h
          exact ⟨stop, rfl, rfl⟩
      have hkept := kept_of_calls (hlen program hp)
        (Progress.ofData?_kept hd (hsteady start hd)) hs hstop hc
      obtain ⟨hprogress, -⟩ := stop_of_calls hstop hc
      have hsame := proceed_taken hl (program.drop start.cursor) start
      rw [List.drop_drop, ← hprogress] at hsame
      have hcursor : start.cursor + (taken answers (program.drop start.cursor) start.cursor).length
          = stop.progress.cursor := by
        rw [hprogress]; rfl
      rw [hcursor] at hsame
      rw [run_eq hp hd, run_eq hp (Progress.ofData?_bytes hkept), hsame]

/-- A script of two calls, the second of which is given the result of the first. -/
def echoing : String := "call s f\ncall s g $0"

/-- The first call has given a list. -/
def answeredOnce : CallResults := ⟨[(0, .ok (.arr [.null]))]⟩

/-- The second call has failed then. -/
def answeredTwice : CallResults := ⟨[(0, .ok (.arr [.null])), (1, .error "no")]⟩

set_option maxRecDepth 4000 in
theorem run_resumed_of_echoing :
    ∃ o, run echoing [] answeredOnce = .ok o ∧ o.calls.map (·.call) = [1] ∧
      run echoing o.data answeredTwice = run echoing [] answeredTwice ∧
      run echoing [] answeredTwice = .error (.callFailed 1 "no") := by
  obtain ⟨o, ho, hcalls⟩ : ∃ o, run echoing [] answeredOnce = .ok o ∧
      o.calls.map (·.call) = [1] := ⟨_, rfl, rfl⟩
  have hget : ∀ {c r}, answeredOnce.get? c = some r → c = 0 ∧ r = .ok (.arr [.null]) := by
    intro c r h
    rw [answeredOnce, Assoc.get?, Assoc.find?] at h
    split at h
    · rename_i hc
      cases h
      exact ⟨hc.symm, rfl⟩
    · cases h
  refine ⟨o, ho, hcalls, run_resumed ?_ ?_ ?_ ?_ ho ?_, rfl⟩
  · intro program hp
    have he : parse? echoing = .ok [.call "s" "f" [], .call "s" "g" [.result 0]] := rfl
    rw [he] at hp
    cases hp
    decide
  · rintro p ⟨⟩ v ⟨⟩
  · intro c v h
    obtain ⟨-, hr⟩ := hget h
    cases hr
    exact ⟨⟨⟨trivial, trivial⟩, ⟨trivial, trivial⟩, trivial⟩, by decide⟩
  · intro c r h
    obtain ⟨rfl, rfl⟩ := hget h
    rfl
  · intro hnone
    rw [hnone] at hcalls
    cases hcalls

end

end Script

end ParticleMesh
