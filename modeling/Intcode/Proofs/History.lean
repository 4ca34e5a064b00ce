import Intcode.Proofs.Tally

namespace Intcode

/-- What a host may do with a machine. A source of inputs is a queue or missing. -/
inductive Operation where
  | step (source : Option Queue)
  | stepInstruction (source : Option Queue)
  | run (inputs : List Value)
  | read (address : Int)
  | write (address : Int) (value : Value)
  | currentInstruction
  | setPointer (pc : Int)
  | setBase (base : Int)

/-- The outcome of an operation whose result does not matter beyond its failure. -/
def Outcome.leaving {σ α : Type} (unread : σ → List Value) (o : Outcome σ α) :
    Outcome (List Value) Unit :=
  ⟨o.result.map fun _ => (), o.machine, unread o.host⟩

namespace Operation

open Machine

/-- The operations that run instructions. -/
def drives : Operation → Bool
  | .step _ | .stepInstruction _ | .run _ => true
  | _ => false

def inputs : Operation → List Value
  | .step (some q) | .stepInstruction (some q) => q.pending
  | .run inputs => inputs
  | _ => []

/-- Carries out the operation on a machine. What is left of the host is the inputs that nothing has
read. -/
def perform (fuel : Nat) (m : Machine) : Operation → Option (Outcome (List Value) Unit)
  | .step none => (m.step (.absent Unit) fuel ()).map (.leaving fun _ => [])
  | .step (some q) => (m.step Queue.host fuel q).map (.leaving Queue.pending)
  | .stepInstruction none => some ((m.stepInstruction (.absent Unit) ()).leaving fun _ => [])
  | .stepInstruction (some q) => some ((m.stepInstruction Queue.host q).leaving Queue.pending)
  | .run inputs => (m.run fuel inputs).map (.leaving id)
  | .read address => some ⟨(m.read address).1.map fun _ => (), (m.read address).2, []⟩
  | .write address value => some ⟨(m.write address value).1, (m.write address value).2, []⟩
  | .currentInstruction => some ⟨m.currentInstruction.1.map fun _ => (), m.currentInstruction.2, []⟩
  | .setPointer pc => some ⟨.ok (), { m with pc }, []⟩
  | .setBase base => some ⟨.ok (), { m with relativeBase := base }, []⟩

/-- The instructions that the operation carries out, in order. -/
def carriesOut (fuel : Nat) (m : Machine) : Operation → List Opcode
  | .step none => tally (m.step (Host.absent Unit).tallied fuel ((), []))
  | .step (some q) => tally (m.step Queue.host.tallied fuel (q, []))
  | .stepInstruction none => m.completed (m.stepInstruction (.absent Unit) ()).result
  | .stepInstruction (some q) => m.completed (m.stepInstruction Queue.host q).result
  | .run inputs => tally (m.collect Host.sequence.tallied fuel (inputs, []))
  | _ => []

variable {op : Operation} {fuel : Nat} {m : Machine} {o : Outcome (List Value) Unit}

theorem perform_mono {fuel' : Nat} (h : op.perform fuel m = some o) (hle : fuel ≤ fuel') :
    op.perform fuel' m = some o := by
  cases op with
  | step source =>
    cases source with
    | none =>
      obtain ⟨o', ho, rfl⟩ := Option.map_eq_some_iff.mp h
      exact Option.map_eq_some_iff.mpr ⟨o', step_mono ho hle, rfl⟩
    | some q =>
      obtain ⟨o', ho, rfl⟩ := Option.map_eq_some_iff.mp h
      exact Option.map_eq_some_iff.mpr ⟨o', step_mono ho hle, rfl⟩
  | run inputs =>
    obtain ⟨o', ho, rfl⟩ := Option.map_eq_some_iff.mp h
    exact Option.map_eq_some_iff.mpr ⟨o', collectFrom_mono ho hle, rfl⟩
  | stepInstruction source => cases source <;> exact h
  | read | write | currentInstruction | setPointer | setBase => exact h

theorem perform_advances (h : op.perform fuel m = some o) :
    m.Advances (op.carriesOut fuel m) o.machine := by
  cases op with
  | step source =>
    cases source with
    | none =>
      obtain ⟨o', ho, rfl⟩ := Option.map_eq_some_iff.mp h
      exact step_advances ho
    | some q =>
      obtain ⟨o', ho, rfl⟩ := Option.map_eq_some_iff.mp h
      exact step_advances ho
  | run inputs =>
    obtain ⟨o', ho, rfl⟩ := Option.map_eq_some_iff.mp h
    exact collect_advances ho
  | stepInstruction source =>
    cases source with
    | none =>
      cases h
      exact stepInstruction_advances (.absent Unit) m ()
    | some q =>
      cases h
      exact stepInstruction_advances Queue.host m q
  | read address =>
    cases h
    exact access_advances (Access.Views.load address) m
  | currentInstruction =>
    cases h
    exact access_advances ((Access.Views.load m.pc).bind Access.Views.decode) m
  | write address value =>
    cases h
    exact m.write_advances address value
  | setPointer | setBase =>
    cases h
    exact ⟨rfl, rfl, Nat.le_refl _⟩

theorem perform_settles (h : op.perform fuel m = some o) : m.Settles o.result o.machine := by
  cases op with
  | step source =>
    cases source with
    | none =>
      obtain ⟨o', ho, rfl⟩ := Option.map_eq_some_iff.mp h
      exact (step_settles ho).map
    | some q =>
      obtain ⟨o', ho, rfl⟩ := Option.map_eq_some_iff.mp h
      exact (step_settles ho).map
  | run inputs =>
    obtain ⟨o', ho, rfl⟩ := Option.map_eq_some_iff.mp h
    exact (collectFrom_settles ho).map
  | stepInstruction source =>
    cases source with
    | none =>
      cases h
      exact (stepInstruction_settles (.absent Unit) m ()).map
    | some q =>
      cases h
      exact (stepInstruction_settles Queue.host m q).map
  | read address =>
    cases h
    exact .of_stays (m.access_status _)
  | currentInstruction =>
    cases h
    exact .of_stays (m.access_status _)
  | write address value =>
    cases h
    exact .of_stays (m.write_status address value)
  | setPointer | setBase =>
    cases h
    exact .of_stays rfl

theorem perform_of_halted (hm : m.isHalted = true) (hd : op.drives = true) (fuel : Nat) :
    op.perform (fuel + 1) m = some ⟨.error (.halted m.fault?), m, op.inputs⟩ := by
  cases op with
  | step source =>
    cases source with
    | none =>
      rw [perform, step_of_halted hm]
      rfl
    | some q =>
      rw [perform, step_of_halted hm]
      rfl
  | stepInstruction source =>
    cases source with
    | none =>
      rw [perform, stepInstruction_of_halted hm]
      rfl
    | some q =>
      rw [perform, stepInstruction_of_halted hm]
      rfl
  | run inputs =>
    rw [perform, Machine.run, collect_of_halted hm]
    rfl
  | read | write | currentInstruction | setPointer | setBase => cases hd

theorem perform_idle (hd : op.drives = false) (h : op.perform fuel m = some o) :
    o.machine.executed = m.executed ∧ o.machine.emitted = m.emitted := by
  have hnone : op.carriesOut fuel m = [] := by
    cases op with
    | step | stepInstruction | run => cases hd
    | read | write | currentInstruction | setPointer | setBase => rfl
  have ha := perform_advances h
  rw [hnone] at ha
  exact ⟨ha.executed, ha.emitted⟩

end Operation

/-- The machine is at its end as it was when it halted; only a host may still have changed its
memory and its registers. -/
structure Machine.Terminal (m m' : Machine) : Prop where
  status : m'.status = m.status
  executed : m'.executed = m.executed
  emitted : m'.emitted = m.emitted

theorem Operation.perform_terminal {op : Operation} {fuel : Nat} {m : Machine}
    {o : Outcome (List Value) Unit} (hm : m.isHalted = true) (h : op.perform fuel m = some o) :
    m.Terminal o.machine := by
  cases hd : op.drives with
  | true =>
    cases (perform_of_halted hm hd fuel).symm.trans (perform_mono h (Nat.le_succ fuel))
    exact ⟨rfl, rfl, rfl⟩
  | false =>
    obtain ⟨hx, he⟩ := perform_idle hd h
    have hstopped := Machine.isHalted_iff.mp hm
    have hs := (perform_settles h).resolve_right fun hr => hstopped hr.1
    exact ⟨hs, hx, he⟩

/-- A sequence of operations on a machine, with their results and the instructions they carry
out. -/
inductive History : Machine → List (Except Error Unit) → List Opcode → Machine → Prop
  | nil (m : Machine) : History m [] [] m
  | cons {m m' : Machine} {op : Operation} {fuel : Nat} {o : Outcome (List Value) Unit}
      {results : List (Except Error Unit)} {log : List Opcode} :
      op.perform fuel m = some o → History o.machine results log m' →
      History m (o.result :: results) (op.carriesOut fuel m ++ log) m'

namespace History

variable {m m' : Machine} {results : List (Except Error Unit)} {log : List Opcode}

theorem advances (h : History m results log m') : m.Advances log m' := by
  induction h with
  | nil m => exact .refl m
  | cons hp _ ih => exact (Operation.perform_advances hp).trans ih

theorem terminal (h : History m results log m') (hm : m.isHalted = true) : m.Terminal m' := by
  induction h with
  | nil m => exact ⟨rfl, rfl, rfl⟩
  | cons hp _ ih =>
    have ht := Operation.perform_terminal hm hp
    have ht' := ih ((Machine.isHalted_congr ht.status).trans hm)
    exact ⟨ht'.status.trans ht.status, ht'.executed.trans ht.executed, ht'.emitted.trans ht.emitted⟩

theorem fault_reported (h : History m results log m') {f : Fault} (hf : m'.fault? = some f) :
    m.fault? = some f ∨ .error (.fault f) ∈ results := by
  induction h with
  | nil m => exact .inl hf
  | @cons m m' op fuel o results log hp _ ih =>
    rcases ih hf with hf₁ | hmem
    · have hs₁ : o.machine.status = .faulted f := Machine.fault?_eq_some.mp hf₁
      rcases Operation.perform_settles hp with hs | ⟨_, ⟨hh, _⟩ | ⟨g, hg, hr⟩⟩
      · exact .inl (Machine.fault?_eq_some.mpr (hs.symm.trans hs₁))
      · cases hh.symm.trans hs₁
      · cases hg.symm.trans hs₁
        exact .inr (List.mem_cons.mpr (.inl hr.symm))
    · exact .inr (List.mem_cons_of_mem _ hmem)

end History

/-- What holds of a machine at every point of its histories. -/
structure Machine.Lasting (m : Machine) (results : List (Except Error Unit)) (log : List Opcode) :
    Prop where
  faulted : ∀ f, m.fault? = some f → m.isHalted = true ∧ .error (.fault f) ∈ results
  spared : ∀ (op : Operation) (fuel : Nat) (o : Outcome (List Value) Unit) (e : Error),
    op.perform fuel m = some o → o.result = .error e → (∀ f, e ≠ .fault f) →
    o.machine.isHalted = m.isHalted ∧ o.machine.fault? = m.fault?
  executed : m.executed = log.length
  emitted : m.emitted = log.count .output
  bounded : m.emitted ≤ m.executed
  grows : ∀ results' log' m', History m results' log' m' → m.memory.size ≤ m'.memory.size
  terminal : m.isHalted = true → ∀ results' log' m', History m results' log' m' →
    m'.isHalted = true ∧ m'.fault? = m.fault? ∧ m'.executed = m.executed ∧ m'.emitted = m.emitted
  refuses : m.isHalted = true → ∀ (op : Operation) (fuel : Nat), op.drives = true →
    op.perform (fuel + 1) m = some ⟨.error (.halted m.fault?), m, op.inputs⟩
  quotes : ∀ f, m.fault? = some f →
    (Error.halted m.fault?).message = "Machine faulted: " ++ f.message

namespace Machine

theorem spared_of_other_error {op : Operation} {fuel : Nat} {m : Machine}
    {o : Outcome (List Value) Unit} {e : Error} (h : op.perform fuel m = some o)
    (he : o.result = .error e) (hf : ∀ f, e ≠ .fault f) : o.machine.status = m.status := by
  rcases he ▸ Operation.perform_settles h with hs | ⟨_, ⟨_, hok⟩ | ⟨f, _, hfe⟩⟩
  · exact hs
  · cases hok
  · exact absurd (Except.error.inj hfe) (hf f)

/-- Whatever a host does with a program's machine, also where it fails, halting is terminal, the
fault is one that an operation has reported, and the counters tell which instructions were carried
out. -/
theorem history_lasting {program : List Value} {m m' : Machine} {results : List (Except Error Unit)}
    {log : List Opcode} (hl : load program = .ok m) (h : History m results log m') :
    m'.Lasting results log := by
  obtain ⟨cells, _, rfl⟩ := load_ok hl
  have ha := h.advances
  have hx : m'.executed = log.length := ha.executed.trans (Nat.zero_add _)
  have he : m'.emitted = log.count .output := ha.emitted.trans (Nat.zero_add _)
  exact {
    faulted := fun f hf => by
      refine ⟨?_, (h.fault_reported hf).resolve_left nofun⟩
      simp [isHalted, isRunning, fault?_eq_some.mp hf]
    spared := fun op fuel o e hp hr hf => by
      have hs := spared_of_other_error hp hr hf
      exact ⟨isHalted_congr hs, fault?_congr hs⟩
    executed := hx
    emitted := he
    bounded := by
      rw [hx, he]
      exact List.count_le_length
    grows := fun results' log' m'' h' => h'.advances.memory
    terminal := fun hm results' log' m'' h' => by
      have ht := h'.terminal hm
      exact ⟨(isHalted_congr ht.status).trans hm, fault?_congr ht.status, ht.executed, ht.emitted⟩
    refuses := fun hm op fuel hd => Operation.perform_of_halted hm hd fuel
    quotes := fun f hf => by
      rw [hf]
      rfl }

/-- An output, an unknown operation, and an attempt to go on. -/
theorem history_lasting_unknown_operation :
    let m := ofCells [104, 7, 77]
    let m₁ : Machine := { m with pc := 2, executed := 1, emitted := 1 }
    let m₂ : Machine := { m₁ with status := .faulted (.unknownOpcode 77) }
    let results := [.ok (), .error (.fault (.unknownOpcode 77)),
      .error (.halted (some (.unknownOpcode 77)))]
    History m results [.output] m₂ ∧ m₂.Lasting results [.output] := by
  intro m m₁ m₂ results
  have h₁ : (Operation.step none).perform 1 m = some ⟨.ok (), m₁, []⟩ := by decide +kernel
  have h₂ : (Operation.stepInstruction none).perform 1 m₁ =
      some ⟨.error (.fault (.unknownOpcode 77)), m₂, []⟩ := by decide +kernel
  have h₃ : (Operation.run [.integer 5]).perform 1 m₂ =
      some ⟨.error (.halted (some (.unknownOpcode 77))), m₂, [.integer 5]⟩ := by decide +kernel
  have hlog : (Operation.step none).carriesOut 1 m ++
      ((Operation.stepInstruction none).carriesOut 1 m₁ ++
        ((Operation.run [.integer 5]).carriesOut 1 m₂ ++ [])) = [.output] := by decide +kernel
  have h : History m results [.output] m₂ := by
    rw [← hlog]
    exact .cons h₁ (.cons h₂ (.cons h₃ (.nil m₂)))
  have hl : load [.integer 104, .integer 7, .integer 77] = .ok m := rfl
  exact ⟨h, history_lasting hl h⟩

end Machine

end Intcode
