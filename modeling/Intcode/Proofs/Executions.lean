import Intcode.Proofs.Disassembly
import Intcode.Proofs.Record

namespace Intcode

/-- A completed instruction, by the machine before and after it. -/
structure Execution where
  before : Machine
  after : Machine

namespace Execution

def opcode? (e : Execution) : Option Opcode :=
  e.before.tape.instruction.toOption.map Instruction.opcode

def Silent (e : Execution) : Prop := e.opcode? ≠ some .output

def IsInput (e : Execution) : Prop := e.opcode? = some .input

instance (e : Execution) : Decidable e.IsInput := inferInstanceAs (Decidable (_ = _))

/-- The value that an input has stored: what is then in the cell that it names. -/
def stored? (e : Execution) : Option Int :=
  match e.before.tape.instruction with
  | .ok i =>
    if i.opcode = .input then
      (e.before.tape.target i .first).toOption.map e.after.memory.get
    else none
  | .error _ => none

def Emits (e : Execution) (v : Int) : Prop :=
  ∃ i, e.before.tape.instruction = .ok i ∧ i.opcode = .output ∧ e.before.tape.value i .first = .ok v

theorem opcode?_of_instruction {m m' : Machine} {i : Instruction} (h : m.tape.instruction = .ok i) :
    opcode? ⟨m, m'⟩ = some i.opcode := by
  rw [opcode?, h]
  rfl

theorem stored?_of_input {m m' : Machine} {i : Instruction} {d : Nat}
    (h : m.tape.instruction = .ok i)
    (hop : i.opcode = .input) (hd : m.tape.target i .first = .ok d) :
    stored? ⟨m, m'⟩ = some (m'.memory.get d) := by
  simp only [stored?, h, if_pos hop, hd]
  rfl

theorem stored?_of_ne {m m' : Machine} {i : Instruction} (h : m.tape.instruction = .ok i)
    (hop : i.opcode ≠ .input) : stored? ⟨m, m'⟩ = none := by
  simp only [stored?, h, if_neg hop]

end Execution

namespace Machine

section

variable {σ : Type} {host : Host σ}

/-- What an instruction that completes has done to the machine and the host. -/
inductive Carried (host : Host σ) (m : Machine) (s : σ) : Option Int → Machine → σ → Prop
  | output {i : Instruction} {v : Int} {m' : Machine} :
      m.tape.instruction = .ok i → i.opcode = .output → m.tape.value i .first = .ok v →
      m'.status = .running → m'.pc = m.pc + 2 → Carried host m s (some v) m' s
  | halt {i : Instruction} {m' : Machine} :
      m.tape.instruction = .ok i → i.opcode = .halt → m'.status = .halted → m'.tape = m.tape →
      Carried host m s none m' s
  | input {i : Instruction} {d : Nat} {value : Value} {m' : Machine} :
      m.tape.instruction = .ok i → i.opcode = .input → m.tape.target i .first = .ok d →
      (host.take s).1 = .ok value → value.toCell = .ok (m'.memory.get d) → m'.status = .running →
      Carried host m s none m' (host.take s).2
  | silent {i : Instruction} {m' : Machine} :
      m.tape.instruction = .ok i → i.opcode ≠ .output → i.opcode ≠ .input → m'.status = .running →
      Carried host m s none m' s

theorem stepInstruction_ok {m m' : Machine} {s s' : σ} {out : Option Int}
    (h : m.stepInstruction host s = ⟨.ok out, m', s'⟩) :
    m.status = .running ∧ ∃ i action memory, m.tape.fetch = .ok (i, action) ∧
      memory.get = m.memory.get ∧ (∀ d, action.destination? = some d → d < memory.size) ∧
      { m with memory }.perform host s (m.pc + i.opcode.width) action = ⟨.ok out, m', s'⟩ := by
  unfold stepInstruction at h
  cases hs : m.status with
  | halted => simp [hs] at h
  | faulted f => simp [hs] at h
  | running =>
    obtain ⟨extent, he⟩ := Access.Views.fetch m
    have hrun : m.fetch.run m.memory =
        Access.leave m.tape.fetch (m.memory.grow (extent m.memory.get)) := he m.memory
    cases hf : m.tape.fetch with
    | error f => simp [hs, hrun, hf, Access.leave] at h
    | ok fetched =>
      obtain ⟨i, action⟩ := fetched
      have hok : m.fetch.run m.memory = .ok (i, action) (m.memory.grow (extent m.memory.get)) := by
        rw [hrun, hf]
        rfl
      simp only [hs, hok] at h
      exact ⟨rfl, i, action, _, rfl, Memory.get_grow .., Access.fetch_covers hok, hs ▸ h⟩

theorem carried_of_ok {m m' : Machine} {s s' : σ} {out : Option Int}
    (h : m.stepInstruction host s = ⟨.ok out, m', s'⟩) : m.Carried host s out m' s' := by
  obtain ⟨hr, i, action, memory, hf, hget, hcovers, h⟩ := stepInstruction_ok h
  obtain ⟨hi, hacts⟩ := Tape.acts_of_fetch hf
  cases hacts with
  | store hop _ =>
    cases h
    have hne {op : Opcode} (hdest : op.destination? ≠ some .third) : i.opcode ≠ op := by
      rintro rfl
      exact hdest hop
    exact .silent hi (hne (by decide)) (hne (by decide)) hr
  | @receive d hop hd =>
    simp only [perform] at h
    split at h
    next => cases h
    next value s₁ ht =>
      split at h
      next => cases h
      next v hv =>
        cases h
        have hstored : (memory.set d v).get d = v := by
          rw [Memory.get_set, if_pos ⟨rfl, hcovers d rfl⟩]
        have htake : (host.take s).2 = s' := by rw [ht]
        rw [← htake]
        exact .input hi hop hd (by rw [ht]) (hv.trans (congrArg Except.ok hstored.symm)) hr
  | emit hop hv =>
    cases h
    exact .output hi hop hv hr (by rw [hop]; rfl)
  | jump hjumps =>
    cases h
    obtain ⟨_, _, ⟨hop, _⟩ | ⟨hop, _⟩⟩ := hjumps
    all_goals exact .silent hi (by simp [hop]) (by simp [hop]) hr
  | shiftBase hop =>
    cases h
    exact .silent hi (by simp [hop]) (by simp [hop]) hr
  | pass hop =>
    cases h
    obtain hop | hop := hop <;> exact .silent hi (by simp [hop]) (by simp [hop]) hr
  | halt hop =>
    cases h
    exact .halt hi hop rfl (by simp [tape, hget, advance])

theorem carried_of_watched {m m' : Machine} {s s' : σ} {out : Option Int}
    (h : m.stepWatched host s = ⟨.ok out, m', s'⟩) :
    ∃ s₁, m.Carried host s out m' s₁ ∧ s' = host.watch m (.ok out) s₁ := by
  unfold stepWatched at h
  generalize ho : m.stepInstruction host s = o at h
  obtain ⟨result, m₁, s₁⟩ := o
  cases h
  exact ⟨s₁, carried_of_ok ho, rfl⟩

/-- The instructions that a machine completes one after the other. -/
inductive Completes (host : Host σ) : Machine → σ → List Execution → Machine → σ → Prop
  | nil {m : Machine} {s : σ} : Completes host m s [] m s
  | cons {m m₁ m' : Machine} {s s₁ s' : σ} {out : Option Int} {log : List Execution} :
      m.stepWatched host s = ⟨.ok out, m₁, s₁⟩ → Completes host m₁ s₁ log m' s' →
      Completes host m s (⟨m, m₁⟩ :: log) m' s'

theorem Completes.concat {m w m' : Machine} {s t s' : σ} {log : List Execution} {out : Option Int}
    (h : Completes host m s log w t) (hw : w.stepWatched host t = ⟨.ok out, m', s'⟩) :
    Completes host m s (log ++ [⟨w, m'⟩]) m' s' := by
  induction h with
  | nil => exact .cons hw .nil
  | cons hfirst _ ih => exact .cons hfirst (ih hw)

theorem step_last {fuel : Nat} {m : Machine} {s : σ} {o : Outcome σ (Option Int)}
    (h : m.step host fuel s = some o) :
    ∃ log w t, Completes host m s log w t ∧ (∀ e ∈ log, e.Silent) ∧
      w.stepWatched host t = o ∧ (o.result = .ok none → o.machine.isRunning = false) := by
  refine step_induction (motive := fun m s o => ∃ log w t, Completes host m s log w t ∧
    (∀ e ∈ log, e.Silent) ∧ w.stepWatched host t = o ∧
      (o.result = .ok none → o.machine.isRunning = false)) ?_ ?_ h
  · intro m s hstop
    exact ⟨[], m, s, .nil, by simp, rfl, hstop⟩
  · intro m s o hn hr ih
    obtain ⟨log, w, t, hlog, hquiet, hlast⟩ := ih
    have hfirst : m.stepWatched host s =
        ⟨.ok none, (m.stepWatched host s).machine, (m.stepWatched host s).host⟩ := by
      rw [← hn]
    refine ⟨⟨m, (m.stepWatched host s).machine⟩ :: log, w, t, .cons hfirst hlog, ?_, hlast⟩
    intro e he
    rcases List.mem_cons.mp he with rfl | he
    · obtain ⟨s₁, hcarried, _⟩ := carried_of_watched hfirst
      cases hcarried with
      | halt hi hop | input hi hop =>
        rw [Execution.Silent, Execution.opcode?_of_instruction hi, hop]
        simp
      | silent hi hne =>
        rw [Execution.Silent, Execution.opcode?_of_instruction hi]
        simpa using hne
    · exact hquiet e he

end

section

variable {σ : Type} {host : Host σ} {why : Exhaustion} {pending : σ → List Value}

/-- The inputs among these instructions store the first of the values, one each and in order, and
leave the others. -/
structure Stores (log : List Execution) (values left : List Int) : Prop where
  values : values = log.filterMap Execution.stored? ++ left
  number : log.countP (·.IsInput) = (log.filterMap Execution.stored?).length

theorem Stores.nil (values : List Int) : Stores [] values values := ⟨rfl, rfl⟩

theorem Stores.append {log later : List Execution} {values between left : List Int}
    (h : Stores log values between) (h' : Stores later between left) :
    Stores (log ++ later) values left := by
  refine ⟨?_, ?_⟩
  · rw [List.filterMap_append, List.append_assoc, ← h'.values]
    exact h.values
  · rw [List.filterMap_append, List.countP_append, List.length_append, h.number, h'.number]

theorem Stores.input {e : Execution} {v : Int} (hop : e.IsInput) (hv : e.stored? = some v)
    (left : List Int) : Stores [e] (v :: left) left := by
  refine ⟨?_, ?_⟩ <;> simp [hop, hv]

theorem Stores.other {e : Execution} (hop : ¬ e.IsInput) (hv : e.stored? = none)
    (values : List Int) :
    Stores [e] values values := by
  refine ⟨?_, ?_⟩ <;> simp [hop, hv]

theorem Carried.stores (hs : host.Serves why pending) {m m' : Machine} {s s' : σ} {out : Option Int}
    (h : m.Carried host s out m' s') {values : List Int} (hp : pending s = values.map .integer) :
    ∃ left, Stores [⟨m, m'⟩] values left ∧ pending s' = left.map .integer := by
  have other {i : Instruction} (hi : m.tape.instruction = .ok i) (hop : i.opcode ≠ .input) :
      Stores [⟨m, m'⟩] values values := by
    refine .other ?_ (Execution.stored?_of_ne hi hop) values
    rw [Execution.IsInput, Execution.opcode?_of_instruction hi]
    simpa using hop
  cases h with
  | output hi hop => exact ⟨values, other hi (by simp [hop]), hp⟩
  | halt hi hop => exact ⟨values, other hi (by simp [hop]), hp⟩
  | silent hi _ hop => exact ⟨values, other hi hop, hp⟩
  | input hi hop hd ht hcell =>
    cases values with
    | nil => simp [hs.starved s hp] at ht
    | cons v left =>
      obtain ⟨s₁, ht₁, hleft⟩ := hs.served s _ _ hp
      rw [ht₁] at ht ⊢
      cases ht
      have hv : v = m'.memory.get _ := Except.ok.inj hcell
      refine ⟨left, .input ?_ ?_ left, hleft⟩
      · rw [Execution.IsInput, Execution.opcode?_of_instruction hi, hop]
      · rw [Execution.stored?_of_input hi hop hd, ← hv]

theorem Completes.stores (hs : host.Serves why pending) {m m' : Machine} {s s' : σ}
    {log : List Execution} (h : Completes host m s log m' s') {values : List Int}
    (hp : pending s = values.map .integer) :
    ∃ left, Stores log values left ∧ pending s' = left.map .integer := by
  induction h generalizing values with
  | nil => exact ⟨values, .nil values, hp⟩
  | cons hfirst _ ih =>
    obtain ⟨s₁, hcarried, rfl⟩ := carried_of_watched hfirst
    obtain ⟨between, hfirst, hp₁⟩ := hcarried.stores hs hp
    obtain ⟨left, hrest, hp'⟩ := ih ((hs.watched ..).trans hp₁)
    exact ⟨left, hfirst.append hrest, hp'⟩

theorem pending_of_failed (hs : host.Serves why pending) {m : Machine} {s : σ} {e : Error}
    (h : (m.stepWatched host s).result = .error e) {values : List Int}
    (hp : pending s = values.map .integer) : pending (m.stepWatched host s).host = pending s := by
  refine (hs.watched m _ _).trans ?_
  obtain ⟨m', _, ho⟩ | ⟨w, d, next, _, ho, htake⟩ := stepInstruction_failed h
  · rw [ho]
  · rw [ho]
    cases values with
    | nil => rw [hs.starved s hp]
    | cons v rest =>
      obtain ⟨s', ht, _⟩ := hs.served s _ _ hp
      rw [ht] at htake
      obtain ⟨refusal, hrefused, _⟩ | ⟨value, hgiven, hcell⟩ := htake
      · cases hrefused
      · cases hgiven
        cases hcell

/-- What a run to the next output comes to, by the instructions that it completes. -/
structure Concludes (host : Host σ) (m : Machine) (s : σ) (o : Outcome σ (Option Int))
    (log : List Execution) : Prop where
  output : ∀ v, o.result = .ok (some v) →
    Completes host m s log o.machine o.host ∧
      (∃ silent last, log = silent ++ [last] ∧ (∀ e ∈ silent, e.Silent) ∧ last.Emits v ∧
        o.machine.pc = last.before.pc + 2) ∧
      o.machine.emitted = m.emitted + 1 ∧ o.machine.status = .running
  halt : o.result = .ok none →
    Completes host m s log o.machine o.host ∧
      (∃ silent last, log = silent ++ [last] ∧ (∀ e ∈ silent, e.Silent) ∧
        last.opcode? = some .halt ∧ o.machine.tape = last.before.tape) ∧
      o.machine.emitted = m.emitted ∧ o.machine.status = .halted
  error : ∀ e, o.result = .error e →
    (∃ w t, Completes host m s log w t ∧ w.stepWatched host t = o) ∧ (∀ x ∈ log, x.Silent) ∧
      o.machine.emitted = m.emitted
  inputs : ∀ why pending, host.Serves why pending → ∀ values : List Int,
    pending s = values.map .integer →
    ∃ left, Stores log values left ∧ pending o.host = left.map .integer

/-- A run to the next output ends with one output, one halt or one error. -/
theorem step_concludes {fuel : Nat} {m : Machine} {s : σ} {o : Outcome σ (Option Int)}
    (h : m.step host fuel s = some o) : ∃ log, Concludes host m s o log := by
  have hemitted := step_emitted h
  obtain ⟨silent, w, t, hsilent, hquiet, rfl, hstop⟩ := step_last h
  generalize ho : w.stepWatched host t = o at hemitted hstop
  obtain ⟨result, m', s'⟩ := o
  cases result with
  | error e =>
    refine ⟨silent, nofun, nofun, fun _ _ => ⟨⟨w, t, hsilent, ho⟩, hquiet, hemitted⟩, ?_⟩
    intro why pending hs values hp
    obtain ⟨left, hstores, hleft⟩ := hsilent.stores hs hp
    have hkept := pending_of_failed hs (by rw [ho]) hleft
    rw [ho] at hkept
    exact ⟨left, hstores, hkept.trans hleft⟩
  | ok out =>
    have hlog := hsilent.concat ho
    refine ⟨silent ++ [⟨w, m'⟩], ?_, ?_, nofun, fun why pending hs values hp => hlog.stores hs hp⟩
    all_goals obtain ⟨s₁, hcarried, _⟩ := carried_of_watched ho
    · rintro v ⟨⟩
      cases hcarried with
      | output hi hop hv hr hpc =>
        exact ⟨hlog, ⟨silent, _, rfl, hquiet, ⟨_, hi, hop, hv⟩, hpc⟩, hemitted, hr⟩
    · rintro ⟨⟩
      have hstopped := isRunning_eq_false.mp (hstop rfl)
      cases hcarried with
      | halt hi hop hhalted htape =>
        refine ⟨hlog, ⟨silent, _, rfl, hquiet, ?_, htape⟩, hemitted, hhalted⟩
        rw [Execution.opcode?_of_instruction hi, hop]
      | input _ _ _ _ _ hr => exact absurd hr hstopped
      | silent _ _ _ hr => exact absurd hr hstopped

/-- The sum of two inputs is output, and is zero; a third value stays in the queue. -/
theorem step_concludes_zero_sum :
    let m := ofCells [3, 11, 3, 12, 1, 11, 12, 11, 4, 11, 99]
    let s : Queue := ⟨[.integer 5, .integer (-5), .integer 7]⟩
    ∃ o log, m.step Queue.host 4 s = some o ∧ o.result = .ok (some 0) ∧
      o.host.pending = [.integer 7] ∧ Concludes Queue.host m s o log := by
  intro m s
  have hstep : (m.step Queue.host 4 s).isSome = true := by decide +kernel
  obtain ⟨o, ho⟩ := Option.isSome_iff_exists.mp hstep
  obtain ⟨log, hlog⟩ := step_concludes ho
  have hends : (m.step Queue.host 4 s).map (fun o => (o.result, o.host.pending)) =
      some (.ok (some 0), [.integer 7]) := by decide +kernel
  rw [ho] at hends
  obtain ⟨hresult, hleft⟩ := Prod.mk.inj (Option.some.inj hends)
  exact ⟨o, log, ho, hresult, hleft, hlog⟩

end

end Machine

end Intcode
