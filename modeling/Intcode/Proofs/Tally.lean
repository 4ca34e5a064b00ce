import Intcode.Proofs.Status

namespace Intcode

theorem Instruction.resolve_emits {i : Instruction} {pc base : Int} {memory memory' : Memory}
    {action : Action} (h : (i.resolve pc base).run memory = .ok action memory') :
    i.opcode = .output ↔ ∃ v, action = .emit v := by
  unfold Instruction.resolve at h
  cases ho : i.opcode with
  | add | multiply | lessThan | equals =>
    simp only [ho] at h
    obtain ⟨a, _, _, h⟩ := Access.run_bind_ok h
    obtain ⟨b, _, _, h⟩ := Access.run_bind_ok h
    obtain ⟨d, _, _, h⟩ := Access.run_bind_ok h
    cases h
    simp
  | jumpIfTrue | jumpIfFalse =>
    simp only [ho] at h
    obtain ⟨a, _, _, h⟩ := Access.run_bind_ok h
    obtain ⟨b, _, _, h⟩ := Access.run_bind_ok h
    cases h
    split <;> simp
  | input | output | adjustBase =>
    simp only [ho] at h
    obtain ⟨a, _, _, h⟩ := Access.run_bind_ok h
    cases h
    simp
  | halt =>
    simp only [ho] at h
    cases h
    simp

namespace Machine

/-- The operations that an attempted instruction carries out: one, unless it fails. -/
def completed (m : Machine) : Except Error (Option Int) → List Opcode
  | .error _ => []
  | .ok _ => (m.currentInstruction.1.toOption.map Instruction.opcode).toList

theorem perform_emits {σ : Type} {host : Host σ} {m : Machine} {s : σ} {next : Int}
    {action : Action} {out : Option Int} (h : (m.perform host s next action).result = .ok out) :
    out.isSome = true ↔ ∃ v, action = .emit v := by
  cases action with
  | store | emit | jump | shiftBase | pass | halt =>
    cases h
    simp
  | receive d =>
    simp only [perform] at h
    generalize host.take s = taken at h
    obtain ⟨given, s'⟩ := taken
    cases given with
    | error refusal => cases h
    | ok value =>
      simp only at h
      cases hv : value.toCell with
      | error e =>
        rw [hv] at h
        cases h
      | ok v =>
        rw [hv] at h
        cases h
        simp

theorem stepInstruction_completed {σ : Type} {host : Host σ} {m : Machine} {s : σ}
    {out : Option Int} (h : (m.stepInstruction host s).result = .ok out) :
    ∃ op, m.completed (.ok out) = [op] ∧ (op = .output ↔ out.isSome = true) := by
  unfold stepInstruction at h
  cases hs : m.status with
  | halted => simp [hs] at h
  | faulted f => simp [hs] at h
  | running =>
    simp only [hs] at h
    cases hf : m.fetch.run m.memory with
    | error f memory => simp [hf] at h
    | ok fetched memory =>
      obtain ⟨i, action⟩ := fetched
      simp only [hf] at h
      obtain ⟨j, between, hj, hf⟩ := Access.run_bind_ok hf
      obtain ⟨_, _, ha, hf⟩ := Access.run_bind_ok hf
      cases hf
      have hcurrent : m.currentInstruction.1 = .ok i := by
        unfold currentInstruction access
        rw [hj]
      refine ⟨i.opcode, ?_, ?_⟩
      · rw [completed, hcurrent]
        rfl
      · exact (Instruction.resolve_emits ha).trans (perform_emits h).symm

theorem perform_size {σ : Type} (host : Host σ) (m : Machine) (s : σ) (next : Int)
    (action : Action) :
    (m.perform host s next action).machine.memory.size = m.memory.size := by
  cases action with
  | emit | jump | shiftBase | pass | halt => rfl
  | store d v => exact Memory.size_set m.memory d v
  | receive d =>
    simp only [perform]
    generalize host.take s = taken
    obtain ⟨given, s'⟩ := taken
    cases given with
    | error refusal => rfl
    | ok value =>
      simp only
      cases value.toCell with
      | error e => rfl
      | ok v => exact Memory.size_set m.memory d v

end Machine

theorem Access.Views.size_le {α : Type} {act : Access α} {view : (Nat → Int) → Except Fault α}
    (h : act.Views view) {memory memory' : Memory}
    (hr : (∃ v, act.run memory = .ok v memory') ∨ ∃ f, act.run memory = .error f memory') :
    memory.size ≤ memory'.size := by
  obtain ⟨extent, he⟩ := h
  have hgrown : memory' = memory.grow (extent memory.get) := by
    rw [he memory] at hr
    cases hv : view memory.get with
    | error f => simpa [hv, leave, eq_comm] using hr
    | ok v => simpa [hv, leave, eq_comm] using hr
  rw [hgrown, Memory.size_grow]
  exact Nat.le_max_left _ _

namespace Machine

theorem stepInstruction_size {σ : Type} (host : Host σ) (m : Machine) (s : σ) :
    m.memory.size ≤ (m.stepInstruction host s).machine.memory.size := by
  unfold stepInstruction
  cases m.status with
  | halted => exact Nat.le_refl _
  | faulted f => exact Nat.le_refl _
  | running =>
    simp only
    cases hf : m.fetch.run m.memory with
    | error f memory =>
      have hle := (Access.Views.fetch m).size_le (.inr ⟨f, hf⟩)
      simp only [fail]
      split <;> exact hle
    | ok fetched memory =>
      have hle := (Access.Views.fetch m).size_le (.inl ⟨fetched, hf⟩)
      simpa only [perform_size] using hle

/-- The counters of the machine grow by the operations carried out, and its memory may grow. -/
structure Advances (m : Machine) (log : List Opcode) (m' : Machine) : Prop where
  executed : m'.executed = m.executed + log.length
  emitted : m'.emitted = m.emitted + log.count .output
  memory : m.memory.size ≤ m'.memory.size

theorem Advances.refl (m : Machine) : m.Advances [] m := ⟨rfl, rfl, Nat.le_refl _⟩

theorem Advances.trans {m m₁ m' : Machine} {log more : List Opcode} (h : m.Advances log m₁)
    (h' : m₁.Advances more m') : m.Advances (log ++ more) m' := by
  refine ⟨?_, ?_, Nat.le_trans h.memory h'.memory⟩
  · rw [h'.executed, h.executed, List.length_append, Nat.add_assoc]
  · rw [h'.emitted, h.emitted, List.count_append, Nat.add_assoc]

theorem stepInstruction_advances {σ : Type} (host : Host σ) (m : Machine) (s : σ) :
    m.Advances (m.completed (m.stepInstruction host s).result)
      (m.stepInstruction host s).machine := by
  obtain ⟨hx, he⟩ := stepInstruction_counts host m s
  have hsize := stepInstruction_size host m s
  cases hr : (m.stepInstruction host s).result with
  | error e =>
    rw [hr] at hx he
    exact ⟨hx, he, hsize⟩
  | ok out =>
    rw [hr] at hx he
    obtain ⟨op, hop, hout⟩ := stepInstruction_completed hr
    rw [hop]
    refine ⟨hx, he.trans ?_, hsize⟩
    cases out with
    | none => simpa [emissionOf, List.count_singleton] using hout
    | some v => simpa [emissionOf, List.count_singleton] using hout

end Machine

section

variable {σ : Type}

/-- The host, with the operations that the machine has carried out. -/
def Host.tallied (host : Host σ) : Host (σ × List Opcode) where
  take s := ((host.take s.1).1, (host.take s.1).2, s.2)
  watch m result s := (host.watch m result s.1, s.2 ++ m.completed result)

theorem Host.tallied_extends (host : Host σ) : host.tallied.Extends host Prod.fst :=
  ⟨fun _ => rfl, fun _ _ _ => rfl⟩

namespace Machine

variable {host : Host σ}

/-- An outcome of a run that began with a tally: the tally goes on, and the machine has advanced by
what is new in it. -/
def Tallies {α : Type} (m : Machine) (t : σ × List Opcode)
    (o : Outcome (σ × List Opcode) α) : Prop :=
  ∃ log, o.host.2 = t.2 ++ log ∧ m.Advances log o.machine

theorem stepWatched_tallies (m : Machine) (t : σ × List Opcode) :
    m.Tallies t (m.stepWatched host.tallied t) := by
  have hkeeps : { host.tallied with watch := fun _ _ s => s }.Keeps fun t' => t'.2 = t.2 :=
    ⟨fun _ ht => ht, fun _ _ _ ht => ht⟩
  have htally : (m.stepInstruction host.tallied t).host.2 = t.2 :=
    stepInstruction_keeps hkeeps m rfl
  exact ⟨m.completed (m.stepInstruction host.tallied t).result, congrArg (· ++ _) htally,
    stepInstruction_advances host.tallied m t⟩

theorem Tallies.after {α β : Type} {m : Machine} {t : σ × List Opcode}
    {o₁ : Outcome (σ × List Opcode) α} {o : Outcome (σ × List Opcode) β} (h : m.Tallies t o₁)
    (h' : o₁.machine.Tallies o₁.host o) : m.Tallies t o := by
  obtain ⟨log, ht, ha⟩ := h
  obtain ⟨more, ht', ha'⟩ := h'
  refine ⟨log ++ more, ?_, ha.trans ha'⟩
  rw [ht', ht, List.append_assoc]

theorem step_tallies {fuel : Nat} {m : Machine} {t : σ × List Opcode}
    {o : Outcome (σ × List Opcode) (Option Int)} (h : m.step host.tallied fuel t = some o) :
    m.Tallies t o :=
  step_induction (motive := fun m t o => m.Tallies t o) (fun m t _ => stepWatched_tallies m t)
    (fun m t _ _ _ ih => (stepWatched_tallies m t).after ih) h

theorem collectFrom_tallies {fuel : Nat} {earlier : List Int} {m : Machine} {t : σ × List Opcode}
    {o : Outcome (σ × List Opcode) (List Int)}
    (h : m.collectFrom host.tallied fuel earlier t = some o) : m.Tallies t o :=
  collectFrom_induction (motive := fun m t o => m.Tallies t o)
    (fun _ _ _ _ _ ho _ => step_tallies ho) (fun _ _ _ _ _ ho _ => step_tallies ho)
    (fun _ _ _ _ _ _ ho _ ih => (step_tallies ho).after ih) h

def tally {α : Type} (o : Option (Outcome (σ × List Opcode) α)) : List Opcode :=
  (o.map fun o => o.host.2).getD []

theorem Tallies.advances {α : Type} {m m' : Machine} {s s' : σ} {log : List Opcode}
    {result : Except Error α} (h : m.Tallies (s, []) ⟨result, m', (s', log)⟩) :
    m.Advances log m' := by
  obtain ⟨log', ht, ha⟩ := h
  cases ht
  exact ha

theorem step_advances {fuel : Nat} {m : Machine} {s : σ} {o : Outcome σ (Option Int)}
    (h : m.step host fuel s = some o) :
    m.Advances (tally (m.step host.tallied fuel (s, []))) o.machine := by
  have hstep : m.step host fuel ((s, []) : σ × List Opcode).1 = some o := h
  obtain ⟨⟨s', log⟩, ho, _⟩ := step_of_extends host.tallied_extends hstep
  rw [ho]
  exact (step_tallies ho).advances

theorem collect_advances {fuel : Nat} {m : Machine} {s : σ} {o : Outcome σ (List Int)}
    (h : m.collect host fuel s = some o) :
    m.Advances (tally (m.collect host.tallied fuel (s, []))) o.machine := by
  have hrun : m.collectFrom host fuel [] ((s, []) : σ × List Opcode).1 = some o := h
  obtain ⟨⟨s', log⟩, ho, _⟩ := collectFrom_of_extends host.tallied_extends hrun
  rw [collect, ho]
  exact (collectFrom_tallies ho).advances

theorem access_advances {α : Type} {act : Access α} {view : (Nat → Int) → Except Fault α}
    (h : act.Views view) (m : Machine) : m.Advances [] (m.access act).2 := by
  rw [access_eq_memory]
  refine ⟨rfl, rfl, ?_⟩
  unfold access
  cases hr : act.run m.memory with
  | error f memory => exact h.size_le (.inr ⟨f, hr⟩)
  | ok v memory => exact h.size_le (.inl ⟨v, hr⟩)

theorem write_advances (m : Machine) (address : Int) (value : Value) :
    m.Advances [] (m.write address value).2 := by
  have haccess := access_advances (Access.Views.reserve address) m
  unfold write
  split
  next e m₁ h => simpa only [h] using haccess
  next a m₁ h =>
    rw [h] at haccess
    cases value.toCell with
    | error e => exact haccess
    | ok v => exact ⟨haccess.executed, haccess.emitted, by simpa using haccess.memory⟩

end Machine

end

end Intcode
