import Intcode.Proofs.Status

namespace Intcode

/-- The kind of an error: it does not matter which source of inputs has no value. -/
def Error.kind : Error → Error
  | .inputExhausted _ => .inputExhausted .noSource
  | e => e

theorem Error.same_kind {α : Type} {result result' : Except Error α}
    (h : result.mapError kind = result'.mapError kind) :
    (∃ out, result = .ok out ∧ result' = .ok out) ∨
      ∃ e e', result = .error e ∧ result' = .error e' ∧ e.kind = e'.kind := by
  cases result with
  | error e =>
    cases result' with
    | error e' => exact .inr ⟨e, e', rfl, rfl, Except.error.inj h⟩
    | ok out => cases h
  | ok out =>
    cases result' with
    | error e' => cases h
    | ok out' =>
      cases h
      exact .inl ⟨out, rfl, rfl⟩

/-- What matters of an outcome when the inputs come from another source. -/
def Outcome.core {σ α : Type} (pending : σ → List Value) (o : Outcome σ α) :
    Outcome (List Value) α :=
  ⟨o.result.mapError Error.kind, o.machine, pending o.host⟩

def Driven.core {σ : Type} (pending : σ → List Value) (d : Driven σ) : Driven (List Value) :=
  ⟨d.outputs, d.result.mapError Error.kind, d.machine, pending d.host⟩

namespace Machine

/-- Calls for one instruction after the other until the machine has halted. -/
def callInstructions {σ : Type} (host : Host σ) : (fuel : Nat) → Machine → σ → Option (Driven σ)
  | 0, _, _ => none
  | fuel + 1, m, s =>
    if m.isHalted then some ⟨[], .ok (), m, s⟩
    else
      let o := m.stepInstruction host s
      match o.result with
      | .error e => some ⟨[], .error e, o.machine, o.host⟩
      | .ok out => (callInstructions host fuel o.machine o.host).map (.after out.toList)

section

variable {σ τ : Type} {host : Host σ} {host' : Host τ} {why why' : Exhaustion}
  {pending : σ → List Value} {pending' : τ → List Value}

theorem stepWatched_core (hs : host.Serves why pending) (hs' : host'.Serves why' pending')
    {s : σ} {s' : τ} (h : pending s = pending' s') (m : Machine) :
    (m.stepWatched host s).core pending = (m.stepWatched host' s').core pending' := by
  cases hm : m.move with
  | done result m' =>
    obtain ⟨t, ht, hp⟩ := stepWatched_done hs hm s
    obtain ⟨t', ht', hp'⟩ := stepWatched_done hs' hm s'
    rw [ht, ht', Outcome.core, Outcome.core, hp, hp', h]
  | await w d next =>
    cases hv : pending s with
    | nil =>
      obtain ⟨t, ht, hp⟩ := stepWatched_starved hs hm hv
      obtain ⟨t', ht', hp'⟩ := stepWatched_starved hs' hm (h.symm.trans hv)
      rw [ht, ht', Outcome.core, Outcome.core, hp, hp']
      rfl
    | cons value rest =>
      obtain ⟨t, hp, ht⟩ := stepWatched_served hs hm hv
      obtain ⟨t', hp', ht'⟩ := stepWatched_served hs' hm (h.symm.trans hv)
      rw [ht, ht']
      cases value.toCell with
      | error e => rw [Outcome.core, Outcome.core, hp, hp']
      | ok v => rw [Outcome.core, Outcome.core, hp, hp']

theorem step_core (hs : host.Serves why pending) (hs' : host'.Serves why' pending') (fuel : Nat)
    {s : σ} {s' : τ} (h : pending s = pending' s') (m : Machine) :
    (m.step host fuel s).map (Outcome.core pending) =
      (m.step host' fuel s').map (Outcome.core pending') := by
  induction fuel generalizing m s s' with
  | zero => rfl
  | succ fuel ih =>
    have hw := stepWatched_core hs hs' h m
    simp only [step]
    generalize m.stepWatched host s = o at hw ⊢
    generalize m.stepWatched host' s' = o' at hw ⊢
    obtain ⟨result, m₁, t⟩ := o
    obtain ⟨result', m₁', t'⟩ := o'
    obtain ⟨hr, rfl, ht⟩ := Outcome.mk.inj hw
    rcases Error.same_kind hr with ⟨out, rfl, rfl⟩ | ⟨e, e', rfl, rfl, _⟩
    · cases out with
      | some v => exact congrArg some hw
      | none =>
        by_cases hrun : m₁.isRunning = true
        · simpa only [hrun, if_true] using ih ht m₁
        · simp [hrun, hw]
    · exact congrArg some hw

theorem callSteps_core (hs : host.Serves why pending) (hs' : host'.Serves why' pending')
    (fuel : Nat) {s : σ} {s' : τ} (h : pending s = pending' s') (m : Machine) :
    (m.callSteps host fuel s).map (Driven.core pending) =
      (m.callSteps host' fuel s').map (Driven.core pending') := by
  induction fuel generalizing m s s' with
  | zero => rfl
  | succ fuel ih =>
    have hstep := step_core hs hs' (fuel + 1) h m
    simp only [callSteps]
    cases ho : m.step host (fuel + 1) s with
    | none =>
      rw [ho] at hstep
      rw [Option.map_eq_none_iff.mp hstep.symm]
      rfl
    | some o =>
      rw [ho] at hstep
      obtain ⟨o', ho', hw⟩ := Option.map_eq_some_iff.mp hstep.symm
      rw [ho']
      obtain ⟨result, m₁, t⟩ := o
      obtain ⟨result', m₁', t'⟩ := o'
      obtain ⟨hr, rfl, ht⟩ := Outcome.mk.inj hw
      rcases Error.same_kind hr with ⟨out, rfl, rfl⟩ | ⟨e, e', rfl, rfl, hk⟩
      · cases out with
        | none => simp [Driven.core, ht]
        | some v =>
          have hrest := congrArg (Option.map (Driven.after [v])) (ih ht.symm m₁')
          simp only [Option.map_map] at hrest ⊢
          exact hrest
      · simp [Driven.core, Except.mapError, ht, hk]

end

section

variable {σ : Type} {host : Host σ}
  (hw : ∀ (m : Machine) (s : σ), m.stepWatched host s = m.stepInstruction host s)

theorem callInstructions_of_ok {m : Machine} {s : σ} {out : Option Int} {fuel : Nat} {d : Driven σ}
    (hm : m.isRunning = true) (hr : (m.stepInstruction host s).result = .ok out)
    (hd : (m.stepInstruction host s).machine.callInstructions host fuel
      (m.stepInstruction host s).host = some d) :
    m.callInstructions host (fuel + 1) s = some (d.after out.toList) := by
  simp [callInstructions, isHalted, hm, hr, hd]

theorem callInstructions_of_error {m : Machine} {s : σ} {e : Error} (hm : m.isRunning = true)
    (hr : (m.stepInstruction host s).result = .error e) :
    m.callInstructions host 1 s =
      some ⟨[], .error e, (m.stepInstruction host s).machine, (m.stepInstruction host s).host⟩ := by
  simp [callInstructions, isHalted, hm, hr]

theorem callInstructions_of_halted {m : Machine} (hm : m.isRunning = false) (s : σ) :
    m.callInstructions host 1 s = some ⟨[], .ok (), m, s⟩ := by
  simp [callInstructions, isHalted, hm]

theorem callInstructions_halted {n : Nat} {m : Machine} {s : σ} {d : Driven σ}
    (hm : m.isRunning = false) (h : m.callInstructions host n s = some d) :
    d = ⟨[], .ok (), m, s⟩ := by
  cases n with
  | zero => simp [callInstructions] at h
  | succ n => simpa [callInstructions, isHalted, hm, eq_comm] using h

include hw

theorem callInstructions_of_step {fuel : Nat}
    {m : Machine} {s : σ} {o : Outcome σ (Option Int)} (hm : m.isRunning = true)
    (h : m.step host fuel s = some o) :
    (∀ e, o.result = .error e →
      ∃ n, m.callInstructions host n s = some ⟨[], .error e, o.machine, o.host⟩) ∧
    ∀ out, o.result = .ok out → ∀ more d, o.machine.callInstructions host more o.host = some d →
      ∃ n, m.callInstructions host n s = some (d.after out.toList) := by
  refine step_induction (motive := fun m s o => m.isRunning = true →
    (∀ e, o.result = .error e →
      ∃ n, m.callInstructions host n s = some ⟨[], .error e, o.machine, o.host⟩) ∧
    ∀ out, o.result = .ok out → ∀ more d, o.machine.callInstructions host more o.host = some d →
      ∃ n, m.callInstructions host n s = some (d.after out.toList)) ?_ ?_ h hm
  -- The last instruction of the call has its result; each silent one before it is a call itself.
  · intro m s _ hm
    rw [hw]
    exact ⟨fun e he => ⟨1, callInstructions_of_error hm he⟩,
      fun out ho more d hd => ⟨more + 1, callInstructions_of_ok hm ho hd⟩⟩
  · intro m s o hn hr ih hm
    rw [hw] at hn hr ih
    obtain ⟨herror, hok⟩ := ih hr
    refine ⟨fun e he => ?_, fun out ho more d hd => ?_⟩
    · obtain ⟨n, hn'⟩ := herror e he
      exact ⟨n + 1, callInstructions_of_ok hm hn hn'⟩
    · obtain ⟨n, hn'⟩ := hok out ho more d hd
      have hc := callInstructions_of_ok hm hn hn'
      exact ⟨n + 1, hc⟩

theorem callInstructions_of_callSteps {fuel : Nat}
    {m : Machine} {s : σ} {d : Driven σ} (hm : m.isRunning = true)
    (h : m.callSteps host fuel s = some d) : ∃ n, m.callInstructions host n s = some d := by
  induction fuel generalizing m s d with
  | zero => simp [callSteps] at h
  | succ fuel ih =>
    simp only [callSteps] at h
    cases hs : m.step host (fuel + 1) s with
    | none => simp [hs] at h
    | some o =>
      obtain ⟨herror, hok⟩ := callInstructions_of_step hw hm hs
      simp only [hs] at h
      split at h
      next e he =>
        cases h
        exact herror e he
      next hn =>
        cases h
        have hstop := step_halted hs hn
        exact hok none hn 1 _ (callInstructions_of_halted hstop o.host)
      next v hv =>
        obtain ⟨d', hd, rfl⟩ := Option.map_eq_some_iff.mp h
        obtain ⟨n, hn⟩ := ih (step_output hs hv) hd
        exact hok (some v) hv n d' hn

theorem callSteps_of_callInstructions {n : Nat}
    {m : Machine} {s : σ} {d : Driven σ} (hm : m.isRunning = true)
    (h : m.callInstructions host n s = some d) : ∃ fuel, m.callSteps host fuel s = some d := by
  induction n generalizing m s d with
  | zero => simp [callInstructions] at h
  | succ n ih =>
    have hwatched := hw m s
    simp only [callInstructions, isHalted, hm, Bool.not_true, Bool.false_eq_true, if_false] at h
    cases hr : (m.stepInstruction host s).result with
    | error e =>
      simp only [hr] at h
      cases h
      exact ⟨1, callSteps_of_error (by rw [hwatched, ← hr])⟩
    | ok out =>
      simp only [hr] at h
      obtain ⟨d', hd, rfl⟩ := Option.map_eq_some_iff.mp h
      cases hrun : (m.stepInstruction host s).machine.isRunning with
      | true =>
        obtain ⟨fuel, hc⟩ := ih hrun hd
        cases out with
        | none => exact ⟨fuel + 1, callSteps_of_silent (by rw [hwatched, ← hr]) hrun hc⟩
        | some v => exact ⟨fuel + 1, callSteps_of_output (by rw [hwatched, ← hr]) hc⟩
      | false =>
        cases out with
        | none =>
          rw [callInstructions_halted hrun hd]
          exact ⟨1, callSteps_of_halt (by rw [hwatched, ← hr]) hrun⟩
        | some v => cases hrun.symm.trans (stepInstruction_output hr)

theorem callSteps_iff_callInstructions {m : Machine} (hm : m.isRunning = true) (s : σ)
    (d : Driven σ) :
    (∃ fuel, m.callSteps host fuel s = some d) ↔ ∃ n, m.callInstructions host n s = some d :=
  ⟨fun ⟨_, h⟩ => callInstructions_of_callSteps hw hm h,
    fun ⟨_, h⟩ => callSteps_of_callInstructions hw hm h⟩

end

theorem callSteps_sequence_iff {m : Machine} {inputs : List Value} {fuel : Nat}
    {c : Driven (List Value)} :
    (∃ d, m.callSteps Host.sequence fuel inputs = some d ∧ d.core id = c) ↔
      ∃ d, m.callSteps Queue.host fuel ⟨inputs⟩ = some d ∧ d.core Queue.pending = c := by
  have hcore : (m.callSteps Host.sequence fuel inputs).map (Driven.core id) =
      (m.callSteps Queue.host fuel ⟨inputs⟩).map (Driven.core Queue.pending) :=
    callSteps_core Host.sequence_serves Queue.host_serves fuel rfl m
  rw [← Option.map_eq_some_iff, hcore, Option.map_eq_some_iff]

theorem run_ok_iff {m m' : Machine} {inputs left : List Value} {outputs : List Int} {fuel : Nat} :
    m.run fuel inputs = some ⟨.ok outputs, m', left⟩ ↔
      m.callSteps Queue.host fuel ⟨inputs⟩ = some ⟨outputs, .ok (), m', ⟨left⟩⟩ := by
  have hrun : m.run fuel inputs = some ⟨.ok outputs, m', left⟩ ↔
      ∃ d, m.callSteps Host.sequence fuel inputs = some d ∧
        d.core id = ⟨outputs, .ok (), m', left⟩ := by
    rw [run, collect, collectFrom_eq_callSteps, Option.map_eq_some_iff]
    refine exists_congr fun d => and_congr_right fun _ => ?_
    obtain ⟨os, result, m₁, s⟩ := d
    cases result <;> simp [Driven.collected, Driven.core, Except.map, Except.mapError]
  rw [hrun, callSteps_sequence_iff]
  constructor
  · rintro ⟨⟨os, result, m₁, q⟩, hd, hcore⟩
    cases result with
    | error e => simp [Driven.core, Except.mapError] at hcore
    | ok =>
      cases hcore
      exact hd
  · intro hd
    exact ⟨_, hd, rfl⟩

theorem run_error_iff {m m' : Machine} {inputs left : List Value} {kind : Error} {fuel : Nat} :
    (∃ e, m.run fuel inputs = some ⟨.error e, m', left⟩ ∧ e.kind = kind) ↔
      ∃ outputs e, m.callSteps Queue.host fuel ⟨inputs⟩ = some ⟨outputs, .error e, m', ⟨left⟩⟩ ∧
        e.kind = kind := by
  constructor
  · rintro ⟨e, hrun, rfl⟩
    rw [run, collect, collectFrom_eq_callSteps, Option.map_eq_some_iff] at hrun
    obtain ⟨⟨os, result, m₁, s⟩, hd, hcollected⟩ := hrun
    cases result with
    | ok => simp [Driven.collected, Except.map] at hcollected
    | error e' =>
      cases hcollected
      obtain ⟨⟨os', result, m₁, q⟩, hd', hcore⟩ := callSteps_sequence_iff.mp ⟨_, hd, rfl⟩
      cases result with
      | ok => simp [Driven.core, Except.mapError] at hcore
      | error e'' =>
        obtain ⟨rfl, hk, rfl, rfl⟩ := Driven.mk.inj hcore
        exact ⟨os', e'', hd', Except.error.inj hk⟩
  · rintro ⟨os, e, hd, rfl⟩
    obtain ⟨⟨os', result, m₁, s⟩, hd', hcore⟩ := callSteps_sequence_iff.mpr ⟨_, hd, rfl⟩
    cases result with
    | ok => simp [Driven.core, Except.mapError] at hcore
    | error e' =>
      obtain ⟨rfl, hk, rfl, rfl⟩ := Driven.mk.inj hcore
      refine ⟨e', ?_, Except.error.inj hk⟩
      rw [run, collect, collectFrom_eq_callSteps, hd']
      rfl

/-- A machine that has not halted comes to the same end in all three ways: the run returns the
outputs of the calls, or it fails with an error of the same kind, with the same machine and the same
inputs left. -/
theorem drivers_agree {m : Machine} (hm : m.isHalted = false) (inputs : List Value) :
    (∀ outputs m' left, (∃ fuel, m.run fuel inputs = some ⟨.ok outputs, m', left⟩) ↔
      ∃ fuel, m.callSteps Queue.host fuel ⟨inputs⟩ = some ⟨outputs, .ok (), m', ⟨left⟩⟩) ∧
    (∀ kind m' left, (∃ fuel e, m.run fuel inputs = some ⟨.error e, m', left⟩ ∧ e.kind = kind) ↔
      ∃ fuel outputs e, m.callSteps Queue.host fuel ⟨inputs⟩ =
        some ⟨outputs, .error e, m', ⟨left⟩⟩ ∧
        e.kind = kind) ∧
    ∀ d, (∃ fuel, m.callSteps Queue.host fuel ⟨inputs⟩ = some d) ↔
      ∃ fuel, m.callInstructions Queue.host fuel ⟨inputs⟩ = some d := by
  have hrun : m.isRunning = true := by simpa [isHalted] using hm
  exact ⟨fun outputs m' left => exists_congr fun fuel => run_ok_iff,
    fun kind m' left => exists_congr fun fuel => run_error_iff,
    fun d => callSteps_iff_callInstructions (fun _ _ => rfl) hrun ⟨inputs⟩ d⟩

/-- An input that is echoed, an output of 0, and an input that is missing. -/
theorem drivers_agree_missing_input :
    let m := ofCells [3, 9, 4, 9, 104, 0, 3, 9, 99]
    let m' : Machine :=
      { memory := .ofList [3, 9, 4, 9, 104, 0, 3, 9, 99, 5], pc := 6, executed := 3, emitted := 2 }
    m.run 4 [.integer 5] = some ⟨.error (.inputExhausted .endOfSequence), m', []⟩ ∧
      m.callSteps Queue.host 4 ⟨[.integer 5]⟩ =
        some ⟨[5, 0], .error (.inputExhausted .emptyQueue), m', ⟨[]⟩⟩ ∧
      ∃ fuel, m.callInstructions Queue.host fuel ⟨[.integer 5]⟩ =
        some ⟨[5, 0], .error (.inputExhausted .emptyQueue), m', ⟨[]⟩⟩ := by
  intro m m'
  have hm : m.isHalted = false := rfl
  have hcalls : m.callSteps Queue.host 4 ⟨[.integer 5]⟩ =
      some ⟨[5, 0], .error (.inputExhausted .emptyQueue), m', ⟨[]⟩⟩ := by decide +kernel
  exact ⟨by decide +kernel, hcalls, ((drivers_agree hm [.integer 5]).2.2 _).mp ⟨4, hcalls⟩⟩

end Machine

end Intcode
