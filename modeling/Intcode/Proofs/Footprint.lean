import Intcode.Proofs.Disassembly
import Intcode.Proofs.Tally
import Mathlib.Data.Finset.Lattice.Fold
import Mathlib.Data.Finset.Union
import Mathlib.Order.Lattice.Nat

namespace Intcode

namespace Tape

/-- The address that a parameter with this mode and cell names; an immediate one names none. -/
def namedBy (base : Int) : Mode → Int → Option Int
  | .position, raw => some raw
  | .immediate, _ => none
  | .relative, raw => some (raw + base)

def address? (t : Tape) (i : Instruction) (k : Parameter) : Option Int :=
  namedBy t.base (i.mode k) (t.raw k)

/-- A parameter resolves unless it names a negative address, or names none where it is stored
into. -/
def resolves (t : Tape) (i : Instruction) (k : Parameter) : Bool :=
  match t.address? i k with
  | some a => 0 ≤ a
  | none => i.opcode.destination? ≠ some k

/-- The instruction at the pointer comes to a parameter that it uses: those before it resolve. -/
structure Reaches (t : Tape) (i : Instruction) (k : Parameter) : Prop where
  instruction : t.instruction = .ok i
  used : k ∈ i.parameters
  before : ∀ j ∈ i.parameters, j.offset < k.offset → t.resolves i j = true

/-- The instruction at the pointer touches a cell: its own, that of a parameter it comes to, or the
one that such a parameter names. -/
inductive Touches (t : Tape) (a : Nat) : Prop
  | pointer : t.pc = a → Touches t a
  | parameter {i : Instruction} {k : Parameter} : t.Reaches i k → t.pc + k.offset = a → Touches t a
  | named {i : Instruction} {k : Parameter} : t.Reaches i k → t.address? i k = some ↑a → Touches t a

def cellAt (address : Int) : Finset Nat := if address < 0 then ∅ else {address.toNat}

def cellsOf (t : Tape) (i : Instruction) (k : Parameter) : Finset Nat :=
  cellAt (t.pc + k.offset) ∪ (t.address? i k).elim ∅ cellAt

/-- The parameters of a list up to the first that does not resolve. -/
def reached (t : Tape) (i : Instruction) : List Parameter → List Parameter
  | [] => []
  | k :: rest => if t.resolves i k then k :: t.reached i rest else [k]

/-- The cells that are touched when parameters are resolved in order. -/
def spread (t : Tape) (i : Instruction) (ks : List Parameter) : Finset Nat :=
  (t.reached i ks).toFinset.biUnion (t.cellsOf i)

/-- The cells that the instruction at the pointer touches. -/
def touched (t : Tape) : Finset Nat :=
  cellAt t.pc ∪
    match t.instruction with
    | .ok i => t.spread i i.parameters
    | .error _ => ∅

@[simp] theorem mem_cellAt {address : Int} {a : Nat} : a ∈ cellAt address ↔ address = a := by
  unfold cellAt
  split
  next => simp only [Finset.notMem_empty, false_iff]; omega
  next => simp only [Finset.mem_singleton]; omega

theorem mem_cellsOf {t : Tape} {i : Instruction} {k : Parameter} {a : Nat} :
    a ∈ t.cellsOf i k ↔ t.pc + k.offset = a ∨ t.address? i k = some ↑a := by
  rw [cellsOf, Finset.mem_union, mem_cellAt]
  cases t.address? i k <;> simp

theorem spread_cons (t : Tape) (i : Instruction) (k : Parameter) (rest : List Parameter) :
    t.spread i (k :: rest) = t.cellsOf i k ∪ if t.resolves i k then t.spread i rest else ∅ := by
  unfold spread
  rw [reached]
  split <;> simp

theorem mem_reached {t : Tape} {i : Instruction} {k : Parameter} {ks : List Parameter}
    (h : ks.Pairwise fun j k => j.offset < k.offset) :
    k ∈ t.reached i ks ↔ k ∈ ks ∧ ∀ j ∈ ks, j.offset < k.offset → t.resolves i j = true := by
  induction ks with
  | nil => simp [reached]
  | cons k₁ rest ih =>
    obtain ⟨hfirst, hrest⟩ := List.pairwise_cons.mp h
    have hnone : ∀ j ∈ k₁ :: rest, ¬ j.offset < k₁.offset := by
      intro j hj
      rcases List.mem_cons.mp hj with rfl | hj
      · exact Nat.lt_irrefl _
      · exact Nat.lt_asymm (hfirst j hj)
    by_cases hk : k = k₁
    · subst hk
      have hmem : k ∈ t.reached i (k :: rest) := by
        rw [reached]
        split <;> exact List.mem_cons_self
      exact iff_of_true hmem ⟨List.mem_cons_self, fun j hj hlt => absurd hlt (hnone j hj)⟩
    · rw [reached]
      split
      next hr =>
        rw [List.mem_cons, or_iff_right hk, ih hrest, List.mem_cons, or_iff_right hk]
        simp [hr]
      next hr =>
        rw [List.mem_singleton, List.mem_cons, or_iff_right hk]
        refine iff_of_false hk ?_
        rintro ⟨hmem, hb⟩
        exact hr (hb k₁ List.mem_cons_self (hfirst k hmem))

theorem parameters_in_order (i : Instruction) :
    i.parameters.Pairwise fun j k => j.offset < k.offset := by
  have hall : [Parameter.first, .second, .third].Pairwise fun j k => j.offset < k.offset := by
    simp [Parameter.offset]
  exact hall.sublist (List.take_sublist _ _)

theorem mem_touched {t : Tape} {a : Nat} : a ∈ t.touched ↔ t.Touches a := by
  have hreached {i : Instruction} (hi : t.instruction = .ok i) (k : Parameter) :
      k ∈ (t.reached i i.parameters).toFinset ↔ t.Reaches i k := by
    rw [List.mem_toFinset, mem_reached (parameters_in_order i)]
    exact ⟨fun ⟨hu, hb⟩ => ⟨hi, hu, hb⟩, fun h => ⟨h.used, h.before⟩⟩
  rw [touched, Finset.mem_union, mem_cellAt]
  constructor
  · rintro (hp | h)
    · exact .pointer hp
    · cases hi : t.instruction with
      | error f => simp [hi] at h
      | ok i =>
        simp only [hi] at h
        obtain ⟨k, hk, ha⟩ := Finset.mem_biUnion.mp h
        rcases mem_cellsOf.mp ha with ha | ha
        · exact .parameter ((hreached hi k).mp hk) ha
        · exact .named ((hreached hi k).mp hk) ha
  · rintro (hp | ⟨hr, ha⟩ | ⟨hr, ha⟩)
    · exact .inl hp
    all_goals
      have hi := hr.instruction
      simp only [hi]
      refine .inr (Finset.mem_biUnion.mpr ⟨_, (hreached hi _).mpr hr, mem_cellsOf.mpr ?_⟩)
    · exact .inl ha
    · exact .inr ha

theorem index_isOk (address : Int) : (Access.index address).isOk = decide (0 ≤ address) := by
  unfold Access.index
  split
  next h => simp [Except.isOk, Except.toBool, h]
  next h => simp [Except.isOk, Except.toBool, Int.not_lt.mp h]

theorem read_isOk (t : Tape) (address : Int) : (t.read address).isOk = decide (0 ≤ address) := by
  rw [← index_isOk, read]
  cases Access.index address <;> rfl

theorem value_isOk {t : Tape} {i : Instruction} {k : Parameter}
    (hd : i.opcode.destination? ≠ some k) :
    (t.value i k).isOk = t.resolves i k := by
  unfold value valueOf resolves address? namedBy
  cases i.mode k with
  | position => exact t.read_isOk _
  | immediate => simp [Except.isOk, Except.toBool, hd]
  | relative => exact t.read_isOk _

theorem target_isOk {t : Tape} {i : Instruction} {k : Parameter}
    (hd : i.opcode.destination? = some k) :
    (t.target i k).isOk = t.resolves i k := by
  unfold target targetOf resolves address? namedBy
  cases i.mode k with
  | position => exact index_isOk _
  | immediate => simp [Except.isOk, Except.toBool, hd]
  | relative => exact index_isOk _

end Tape

namespace Access

variable {α β : Type}

/-- The memory that an access leaves, also when it fails. -/
def left : EStateM.Result Fault Memory α → Memory
  | .ok _ memory => memory
  | .error _ memory => memory

/-- The access touches cells that the memory determines, and the memory grows as far as they go. -/
def Spans (act : Access α) (cells : (Nat → Int) → Finset Nat) : Prop :=
  ∀ memory : Memory,
    (left (act.run memory)).size = max memory.size ((cells memory.get).sup (· + 1))

theorem left_leave (r : Except Fault α) (memory : Memory) : left (leave r memory) = memory := by
  cases r <;> rfl

theorem Spans.of_eq {act : Access α} {cells cells' : (Nat → Int) → Finset Nat} (h : act.Spans cells)
    (he : ∀ memory, cells memory = cells' memory) : act.Spans cells' :=
  funext he ▸ h

theorem Spans.pure (v : α) : Spans (Pure.pure v) fun _ => ∅ := by
  intro memory
  simp [left]

theorem Spans.fault (f : Fault) : Spans (throw f : Access α) fun _ => ∅ := by
  intro memory
  change memory.size = _
  simp

theorem Spans.decode (cell : Int) : (decode cell).Spans fun _ => ∅ := by
  intro memory
  rw [run_decode]
  cases Instruction.decode cell <;> simp [left]

theorem Spans.reserve (address : Int) : (reserve address).Spans fun _ => Tape.cellAt address := by
  intro memory
  rw [run_reserve, Tape.cellAt]
  by_cases h : address < 0 <;> simp [h, left]

theorem Spans.load (address : Int) : (load address).Spans fun _ => Tape.cellAt address := by
  intro memory
  rw [run_load, Tape.cellAt]
  by_cases h : address < 0 <;> simp [h, left]

/-- What follows an access touches its cells only if the access succeeds. -/
theorem Spans.bind {act : Access α} {next : α → Access β} {view : (Nat → Int) → Except Fault α}
    {cells : (Nat → Int) → Finset Nat} {w : α → (Nat → Int) → Finset Nat} (hv : act.Views view)
    (h : act.Spans cells) (hn : ∀ v, (next v).Spans (w v)) :
    (act >>= next).Spans fun memory => cells memory ∪
      match view memory with
      | .ok v => w v memory
      | .error _ => ∅ := by
  obtain ⟨extent, he⟩ := hv
  intro memory
  have hsize := h memory
  rw [he, left_leave] at hsize
  rw [EStateM.run_bind, he]
  cases hview : view memory.get with
  | error f => simpa [left, leave, hview] using hsize
  | ok v =>
    have hmore := hn v (memory.grow (extent memory.get))
    rw [Memory.get_grow, hsize] at hmore
    simp only [leave, hview, Finset.sup_union]
    rw [hmore, Nat.max_assoc]

section

variable {pc : Int} (hpc : 0 ≤ pc) (base : Int) {i : Instruction}

include hpc

theorem Spans.operand (i : Instruction) (k : Parameter) :
    (i.operand pc base k).Spans fun cells => Tape.cellsOf ⟨cells, pc, base⟩ i k := by
  unfold Instruction.operand
  refine (Spans.bind (w := fun raw _ => (Tape.namedBy base (i.mode k) raw).elim ∅ Tape.cellAt)
    (Views.load _) (Spans.load _) fun raw => ?_).of_eq fun cells => ?_
  · cases i.mode k with
    | position => exact .load raw
    | immediate => exact .pure raw
    | relative => exact .load (raw + base)
  · rw [index, if_neg (by omega)]
    rfl

theorem Spans.destination (i : Instruction) (k : Parameter) :
    (i.destination pc base k).Spans fun cells => Tape.cellsOf ⟨cells, pc, base⟩ i k := by
  unfold Instruction.destination
  refine (Spans.bind (w := fun raw _ => (Tape.namedBy base (i.mode k) raw).elim ∅ Tape.cellAt)
    (Views.load _) (Spans.load _) fun raw => ?_).of_eq fun cells => ?_
  · cases i.mode k with
    | position => exact .reserve raw
    | immediate => exact .fault .illegalDestination
    | relative => exact .reserve (raw + base)
  · rw [index, if_neg (by omega)]
    rfl

variable {k : Parameter} {rest : List Parameter}

theorem Spans.operand_then {next : Int → Access β} (hd : i.opcode.destination? ≠ some k)
    (hn : ∀ v, (next v).Spans fun cells => Tape.spread ⟨cells, pc, base⟩ i rest) :
    (i.operand pc base k >>= next).Spans fun cells =>
    Tape.spread ⟨cells, pc, base⟩ i (k :: rest) := by
  refine ((Spans.operand hpc base i k).bind (Views.operand hpc base i k) hn).of_eq fun cells => ?_
  rw [Tape.spread_cons, ← Tape.value_isOk hd]
  cases Tape.value ⟨cells, pc, base⟩ i k <;> simp [Except.isOk, Except.toBool]

theorem Spans.destination_then {next : Nat → Access β} (hd : i.opcode.destination? = some k)
    (hn : ∀ d, (next d).Spans fun cells => Tape.spread ⟨cells, pc, base⟩ i rest) :
    (i.destination pc base k >>= next).Spans fun cells =>
      Tape.spread ⟨cells, pc, base⟩ i (k :: rest) := by
  refine ((Spans.destination hpc base i k).bind (Views.destination hpc base i k) hn).of_eq
    fun cells => ?_
  rw [Tape.spread_cons, ← Tape.target_isOk hd]
  cases Tape.target ⟨cells, pc, base⟩ i k <;> simp [Except.isOk, Except.toBool]

theorem Spans.resolve (i : Instruction) :
    (i.resolve pc base).Spans fun cells => Tape.spread ⟨cells, pc, base⟩ i i.parameters := by
  unfold Instruction.resolve Instruction.parameters Parameter.upTo
  cases ho : i.opcode with
  | add | multiply | lessThan | equals =>
    refine .operand_then hpc base (by simp [ho, Opcode.destination?]) fun a => ?_
    refine .operand_then hpc base (by simp [ho, Opcode.destination?]) fun b => ?_
    exact .destination_then hpc base (by simp [ho, Opcode.destination?]) fun d => .pure _
  | jumpIfTrue | jumpIfFalse =>
    refine .operand_then hpc base (by simp [ho, Opcode.destination?]) fun a => ?_
    exact .operand_then hpc base (by simp [ho, Opcode.destination?]) fun b => .pure _
  | input => exact .destination_then hpc base (by simp [ho, Opcode.destination?]) fun d => .pure _
  | output | adjustBase =>
    exact .operand_then hpc base (by simp [ho, Opcode.destination?]) fun a => .pure _
  | halt => exact .pure _

end

theorem Spans.fetch (m : Machine) :
    m.fetch.Spans fun cells => Tape.touched ⟨cells, m.pc, m.relativeBase⟩ := by
  by_cases hpc : m.pc < 0
  · intro memory
    have hnone : Tape.touched ⟨memory.get, m.pc, m.relativeBase⟩ = ∅ := by
      rw [Tape.touched, Tape.instruction, Tape.read, index, if_pos hpc, Tape.cellAt, if_pos hpc]
      rfl
    simp [Machine.fetch, EStateM.run_bind, run_load, hpc, left, hnone]
  · have hpc := Int.not_lt.mp hpc
    have hview : (Access.load m.pc >>= Access.decode).Views fun cells =>
        Tape.instruction ⟨cells, m.pc, m.relativeBase⟩ := (Views.load m.pc).bind Views.decode
    have hcell : (Access.load m.pc >>= Access.decode).Spans fun _ => Tape.cellAt m.pc :=
      ((Spans.load m.pc).bind (Views.load m.pc) Spans.decode).of_eq fun cells => by
        cases (index m.pc).map cells <;> simp
    have hresolve (i : Instruction) :
        (i.resolve m.pc m.relativeBase >>= fun action => Pure.pure (i, action)).Spans fun cells =>
          Tape.spread ⟨cells, m.pc, m.relativeBase⟩ i i.parameters :=
      ((Spans.resolve hpc m.relativeBase i).bind (Views.resolve hpc m.relativeBase i) fun action =>
        Spans.pure (i, action)).of_eq fun cells => by
          cases Tape.action ⟨cells, m.pc, m.relativeBase⟩ i <;> simp
    refine (hcell.bind hview hresolve).of_eq fun cells => ?_
    rw [Tape.touched]
    cases Tape.instruction ⟨cells, m.pc, m.relativeBase⟩ <;> rfl

end Access

namespace Machine

variable {σ : Type}

/-- An instruction leaves the memory that fetching it leaves, up to a cell that it stores into. -/
theorem stepInstruction_size_eq (host : Host σ) {m : Machine} (s : σ) (hr : m.status = .running) :
    (m.stepInstruction host s).machine.memory.size =
      (Access.left (m.fetch.run m.memory)).size := by
  unfold stepInstruction
  rw [hr]
  simp only
  cases m.fetch.run m.memory with
  | error f memory =>
    simp only [fail]
    split <;> rfl
  | ok fetched memory => exact perform_size host _ s _ _

theorem perform_get (host : Host σ) (m : Machine) (s : σ) (next : Int) (action : Action) (a : Nat) :
    (m.perform host s next action).machine.memory.get a = m.memory.get a ∨
      (m.perform host s next action).result.isOk = true ∧ action.destination? = some a := by
  have hset (d : Nat) (v : Int) : (m.memory.set d v).get a = m.memory.get a ∨ d = a := by
    rw [Memory.get_set]
    by_cases hd : d = a
    · exact .inr hd
    · simp [hd]
  cases action with
  | emit | jump | shiftBase | pass | halt => exact .inl rfl
  | store d v => exact (hset d v).imp_right fun hd => ⟨rfl, congrArg some hd⟩
  | receive d =>
    simp only [perform]
    generalize host.take s = taken
    obtain ⟨given, s'⟩ := taken
    cases given with
    | error refusal => exact .inl rfl
    | ok value =>
      simp only
      cases value.toCell with
      | error e => exact .inl rfl
      | ok v => exact (hset d v).imp_right fun hd => ⟨rfl, congrArg some hd⟩

/-- An instruction changes a cell only if it is completed, and then the one that its destination
names. -/
theorem stepInstruction_get (host : Host σ) {m : Machine} (s : σ) (hr : m.status = .running)
    (a : Nat) :
    (m.stepInstruction host s).machine.memory.get a = m.memory.get a ∨
      (m.stepInstruction host s).result.isOk = true ∧ ∃ i k, m.tape.instruction = .ok i ∧
        i.opcode.destination? = some k ∧ m.tape.target i k = .ok a := by
  obtain ⟨n, hstep⟩ := stepInstruction_of_running host s hr
  rw [hstep]
  cases hf : m.tape.fetch with
  | error f =>
    refine .inl ?_
    simp only [fail]
    split <;> simp
  | ok fetched =>
    obtain ⟨i, action⟩ := fetched
    obtain ⟨hi, hacts⟩ := Tape.acts_of_fetch hf
    refine (perform_get host _ s _ action a).imp (fun hget => hget.trans (by simp)) ?_
    rintro ⟨hok, hd⟩
    refine ⟨hok, i, ?_⟩
    cases hacts with
    | store hdest ht =>
      cases hd
      exact ⟨_, hi, hdest, ht⟩
    | receive hop ht =>
      cases hd
      exact ⟨_, hi, by rw [hop]; rfl, ht⟩
    | emit | jump | shiftBase | pass | halt => cases hd

/-- The memory after an instruction: it reaches to the last cell touched, and what is new in it is
empty but for a cell that the instruction stores into. -/
structure GrowsTo (m m' : Machine) (completed : Bool) : Prop where
  touched : ∀ a, a ∈ m.tape.touched ↔ m.tape.Touches a
  size : m'.memory.size = max m.memory.size (m.tape.touched.sup (· + 1))
  added : ∀ a, m.memory.size ≤ a → m'.memory.get a = 0 ∨ completed = true ∧
    ∃ i k, m.tape.instruction = .ok i ∧ i.opcode.destination? = some k ∧ m.tape.target i k = .ok a

/-- The memory grows exactly to the highest cell that an instruction touches, whatever comes of
it. -/
theorem stepInstruction_grows {σ : Type} (host : Host σ) {m : Machine} (s : σ)
    (hr : m.status = .running) :
    m.GrowsTo (m.stepInstruction host s).machine (m.stepInstruction host s).result.isOk := by
  refine ⟨fun a => Tape.mem_touched, ?_, fun a ha => ?_⟩
  · rw [stepInstruction_size_eq host s hr]
    exact Access.Spans.fetch m m.memory
  · have hnew : m.memory.get a = 0 := Memory.get_of_size_le ha
    exact (stepInstruction_get host s hr a).imp_left fun hget => hget.trans hnew

/-- A jump that is not taken, with its target behind the memory. -/
theorem stepInstruction_grows_not_taken :
    let m : Machine := { memory := .ofList [2106, 5, 9], relativeBase := 3 }
    let o := m.stepInstruction (.absent Unit) ()
    m.GrowsTo o.machine true ∧ m.tape.touched = {0, 1, 2, 12} ∧
      o.machine.memory.toList = [2106, 5, 9, 0, 0, 0, 0, 0, 0, 0, 0, 0, 0] ∧ o.machine.pc = 3 := by
  intro m o
  have hok : o.result.isOk = true := by decide +kernel
  refine ⟨?_, by decide +kernel, by decide +kernel, by decide +kernel⟩
  rw [← hok]
  exact stepInstruction_grows (.absent Unit) () rfl

end Machine

end Intcode
