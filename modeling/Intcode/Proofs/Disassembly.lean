import Intcode.Listing
import Intcode.Proofs.Decimal
import Intcode.Proofs.Decoding
import Intcode.Proofs.Malformed

namespace Intcode

theorem Numeral.toString_injective {n n' : Int} (h : toString n = toString n') : n = n' := by
  have hread := congrArg (fun text => signed text.toList) h
  simp only [signed_toString, Prod.mk.injEq] at hread
  have hsign : n < 0 ↔ n' < 0 := decide_eq_decide.mp hread.1
  have habs : n.natAbs = n'.natAbs := by
    rw [← ofDigits_toDigits n.natAbs, hread.2, ofDigits_toDigits]
  omega

namespace Memory

theorem peek_of_nonneg (m : Memory) {a : Int} (h : 0 ≤ a) : m.peek a = m.get a.toNat :=
  if_neg (Int.not_lt.mpr h)

theorem isWritable_peek {m : Memory} (h : ∀ n ∈ m.toList, Numeral.IsShort n) (a : Int) :
    Numeral.isWritable (m.peek a) = true := by
  have hzero : Numeral.isWritable 0 = true := decide_eq_true Numeral.writeBound_pos
  unfold peek
  split
  next => exact hzero
  next =>
    rw [get_eq_toList, List.getD_eq_getElem?_getD]
    cases hcell : m.toList[a.toNat]? with
    | none => exact hzero
    | some n => exact Numeral.isWritable_iff.mpr (h n (List.mem_of_getElem? hcell))

end Memory

namespace Instruction

theorem decode_error {cell : Int} {f : Fault} (h : decode cell = .error f) :
    f = .unknownOpcode cell ∨ ∃ d, f = .unknownMode d := by
  obtain hop | ⟨n, rfl, hcode, ⟨place, hw⟩ | ⟨i, _, hd⟩⟩ := decode_cases cell
  · cases h.symm.trans (decode_no_operation hop)
    exact .inl rfl
  · cases h.symm.trans (decode_of_lowestWrong hcode hw)
    exact .inr ⟨_, rfl⟩
  · cases h.symm.trans hd

end Instruction

namespace Listing

/-- How a cell is shown as an operand. -/
def shown : Mode → Int → String
  | .position, n => "[" ++ toString n ++ "]"
  | .immediate, n => "#" ++ toString n
  | .relative, n => "[rb" ++ (if n < 0 then toString n else "+" ++ toString n) ++ "]"

/-- The line of an operation with the texts of its operands. -/
def line (op : Opcode) : List String → String
  | [] => op.name
  | operands => Text.alignLeft 4 op.name ++ " " ++ ", ".intercalate operands

/-- The operands of an instruction whose own cell is at an address. -/
def operands (memory : Memory) (address : Int) (i : Instruction) : List String :=
  i.parameters.map fun k => shown (i.mode k) (memory.peek (address + k.offset))

theorem operand_eq_shown {n : Int} (h : Numeral.isWritable n = true) (mode : Mode) :
    operand n mode = .ok (shown mode n) := by
  cases mode with
  | position | immediate => simp [operand, Numeral.write, h, Except.map, shown]
  | relative => simp [operand, Numeral.writeSigned, Numeral.write, h, Except.map, shown]

theorem instruction_eq_line {memory : Memory} (h : ∀ a, Numeral.isWritable (memory.peek a) = true)
    (address : Int) (i : Instruction) :
    instruction memory address i = .ok (line i.opcode (operands memory address i)) := by
  have hshown : (fun k : Parameter => operand (memory.peek (address + k.offset)) (i.mode k)) =
      fun k => pure (shown (i.mode k) (memory.peek (address + k.offset))) := by
    funext k
    exact operand_eq_shown (h _) _
  unfold instruction
  rw [hshown, List.mapM_pure]
  obtain ⟨op, mode1, mode2, mode3⟩ := i
  cases op <;> rfl

theorem entry_eq {memory : Memory} (h : ∀ a, Numeral.isWritable (memory.peek a) = true)
    (address : Int) :
    entry memory address =
      match Instruction.decode (memory.peek address) with
      | .ok i => .ok (line i.opcode (operands memory address i), i.opcode.width)
      | .error _ => .ok ("DATA " ++ toString (memory.peek address), 1) := by
  cases hd : Instruction.decode (memory.peek address) with
  | ok i => simp only [entry, hd, instruction_eq_line h, Except.map]
  | error f => simp only [entry, hd, Numeral.write, h, if_true, Except.map]

theorem line_eq_name (op : Opcode) (operands : List String) :
    ∃ rest, line op operands = op.name ++ rest := by
  cases operands with
  | nil => exact ⟨"", (String.append_empty).symm⟩
  | cons operand operands =>
    exact ⟨_, by simp only [line, Text.alignLeft, String.append_assoc]; rfl⟩

theorem line_ne_data (op : Opcode) (operands : List String) (v : Int) :
    line op operands ≠ "DATA " ++ toString v := by
  intro h
  obtain ⟨rest, hname⟩ := line_eq_name op operands
  have hfirst := congrArg (fun text => text.toList.head?) (hname.symm.trans h)
  simp only [String.toList_append] at hfirst
  cases op <;> simp [Opcode.name] at hfirst

end Listing

namespace Tape

/-- The instruction jumps at the value of its first operand. -/
def Jumps (t : Tape) (i : Instruction) : Prop :=
  ∃ v, t.value i .first = .ok v ∧ (i.opcode = .jumpIfTrue ∧ v ≠ 0 ∨ i.opcode = .jumpIfFalse ∧ v = 0)

section

variable {α β : Type} {r : Except Fault α} {next : α → Except Fault β}

theorem bind_fails {f : Fault} (h : r >>= next = .error f) :
    r = .error f ∨ ∃ v, r = .ok v ∧ next v = .error f := by
  cases r with
  | error g =>
    cases h
    exact .inl rfl
  | ok v => exact .inr ⟨v, rfl, h⟩

theorem bind_succeeds {w : β} (h : r >>= next = .ok w) : ∃ v, r = .ok v ∧ next v = .ok w := by
  cases r with
  | error g => cases h
  | ok v => exact ⟨v, rfl, h⟩

end

theorem fails_of_action {t : Tape} {i : Instruction} {f : Fault} (h : t.action i = .error f) :
    ∃ k, t.value i k = .error f ∨ t.target i k = .error f := by
  unfold action at h
  cases hop : i.opcode with
  | halt =>
    simp only [hop] at h
    cases h
  | input =>
    simp only [hop] at h
    obtain h | ⟨d, _, h⟩ := bind_fails h
    · exact ⟨_, .inr h⟩
    · cases h
  | output | adjustBase =>
    simp only [hop] at h
    obtain h | ⟨a, _, h⟩ := bind_fails h
    · exact ⟨_, .inl h⟩
    · cases h
  | jumpIfTrue | jumpIfFalse =>
    simp only [hop] at h
    obtain h | ⟨a, _, h⟩ := bind_fails h
    · exact ⟨_, .inl h⟩
    · obtain h | ⟨b, _, h⟩ := bind_fails h
      · exact ⟨_, .inl h⟩
      · cases h
  | add | multiply | lessThan | equals =>
    simp only [hop] at h
    obtain h | ⟨a, _, h⟩ := bind_fails h
    · exact ⟨_, .inl h⟩
    · obtain h | ⟨b, _, h⟩ := bind_fails h
      · exact ⟨_, .inl h⟩
      · obtain h | ⟨d, _, h⟩ := bind_fails h
        · exact ⟨_, .inr h⟩
        · cases h

theorem action_error {t : Tape} {i : Instruction} {f : Fault} (h : t.action i = .error f) :
    f = .illegalDestination ∨ ∃ a, f = .negativeAddress a := by
  obtain ⟨k, hv | ht⟩ := fails_of_action h
  · exact .inr (value_error hv)
  · obtain hm | ha := target_error ht
    · rw [target, hm] at ht
      cases ht
      exact .inl rfl
    · exact .inr ha

/-- What an action says of the instruction whose operands were read for it. -/
inductive Acts (t : Tape) (i : Instruction) : Action → Prop
  | store {d : Nat} {v : Int} : i.opcode.destination? = some .third → t.target i .third = .ok d →
      Acts t i (.store d v)
  | receive {d : Nat} : i.opcode = .input → t.target i .first = .ok d → Acts t i (.receive d)
  | emit {v : Int} : i.opcode = .output → t.value i .first = .ok v → Acts t i (.emit v)
  | jump {target : Int} : t.Jumps i → Acts t i (.jump target)
  | shiftBase {n : Int} : i.opcode = .adjustBase → Acts t i (.shiftBase n)
  | pass : i.opcode = .jumpIfTrue ∨ i.opcode = .jumpIfFalse → Acts t i .pass
  | halt : i.opcode = .halt → Acts t i .halt

theorem acts_of_action {t : Tape} {i : Instruction} {act : Action} (h : t.action i = .ok act) :
    t.Acts i act := by
  unfold action at h
  cases hop : i.opcode with
  | halt =>
    simp only [hop] at h
    cases h
    exact .halt hop
  | input =>
    simp only [hop] at h
    obtain ⟨d, hd, h⟩ := bind_succeeds h
    cases h
    exact .receive hop hd
  | output =>
    simp only [hop] at h
    obtain ⟨a, ha, h⟩ := bind_succeeds h
    cases h
    exact .emit hop ha
  | adjustBase =>
    simp only [hop] at h
    obtain ⟨a, _, h⟩ := bind_succeeds h
    cases h
    exact .shiftBase hop
  | jumpIfTrue | jumpIfFalse =>
    simp only [hop] at h
    obtain ⟨a, ha, h⟩ := bind_succeeds h
    obtain ⟨b, _, h⟩ := bind_succeeds h
    cases h
    split
    next htaken => exact .jump ⟨a, ha, by simpa [hop] using htaken⟩
    next => exact .pass (by simp [hop])
  | add | multiply | lessThan | equals =>
    simp only [hop] at h
    obtain ⟨a, _, h⟩ := bind_succeeds h
    obtain ⟨b, _, h⟩ := bind_succeeds h
    obtain ⟨d, hd, h⟩ := bind_succeeds h
    cases h
    exact .store (by simp [hop, Opcode.destination?]) hd

theorem acts_of_fetch {t : Tape} {i : Instruction} {act : Action} (h : t.fetch = .ok (i, act)) :
    t.instruction = .ok i ∧ t.Acts i act := by
  obtain ⟨j, hj, h⟩ := bind_succeeds h
  obtain ⟨act', hact, h⟩ := bind_succeeds h
  cases h
  exact ⟨hj, acts_of_action hact⟩

/-- Only a halt halts, and only a jump that is taken jumps. -/
theorem action_ok {t : Tape} {i : Instruction} {act : Action} (h : t.action i = .ok act) :
    (act = .halt → i.opcode = .halt) ∧ ∀ target, act = .jump target → t.Jumps i := by
  cases acts_of_action h with
  | halt hop => exact ⟨fun _ => hop, nofun⟩
  | jump hjumps => exact ⟨nofun, fun _ _ => hjumps⟩
  | store | receive | emit | shiftBase | pass => exact ⟨nofun, nofun⟩

end Tape

namespace Machine

theorem raw_tape {m : Machine} (hpc : 0 ≤ m.pc) (k : Parameter) :
    m.tape.raw k = m.memory.peek (m.pc + k.offset) := by
  have hcell : 0 ≤ m.pc + k.offset := by omega
  exact (m.memory.peek_of_nonneg hcell).symm

theorem instruction_tape {m : Machine} (hpc : 0 ≤ m.pc) :
    m.tape.instruction = Instruction.decode (m.memory.peek m.pc) := by
  have hindex : Access.index m.tape.pc = .ok m.pc.toNat := if_neg (Int.not_lt.mpr hpc)
  rw [m.memory.peek_of_nonneg hpc, Tape.instruction, Tape.read, hindex]
  rfl

theorem currentInstruction_of_decode {m : Machine} {i : Instruction} (hpc : 0 ≤ m.pc)
    (hd : Instruction.decode (m.memory.peek m.pc) = .ok i) : m.currentInstruction.1 = .ok i := by
  rw [m.memory.peek_of_nonneg hpc] at hd
  simp only [currentInstruction, access, EStateM.run_bind, Access.run_load, Access.run_decode,
    if_neg (Int.not_lt.mpr hpc), hd]

variable {σ : Type}

theorem fetch_of_fault {host : Host σ} {m : Machine} {s : σ} {f : Fault}
    (h : (m.stepInstruction host s).result = .error (.fault f)) : m.tape.fetch = .error f := by
  obtain ⟨m', hm, _⟩ | ⟨w, d, next, _, _, ⟨refusal, _, he⟩ | ⟨value, _, hv⟩⟩ :=
    stepInstruction_failed h
  · obtain ⟨_, _, cause, he⟩ | ⟨_, _, g, he, hg⟩ := move_failed hm
    · cases he
    · unfold Error.ofFault at he
      split at he
      · cases he
        exact hg
      · cases he
  · cases refusal <;> cases he
  · cases Value.toCell_error hv

/-- A running machine grows its memory, and fails or acts as its tape shows. -/
theorem stepInstruction_of_running (host : Host σ) (s : σ) {m : Machine}
    (hr : m.status = .running) :
    ∃ n, m.stepInstruction host s =
      match m.tape.fetch with
      | .error f => ⟨.error (.ofFault f), { m with memory := m.memory.grow n }.fail f, s⟩
      | .ok (i, action) =>
        { m with memory := m.memory.grow n }.perform host s (m.pc + i.opcode.width) action := by
  rw [stepInstruction_eq_meet]
  obtain ⟨n, ⟨f, hf, hm⟩ | ⟨i, action, hf, hm⟩⟩ := move_of_running hr
  · refine ⟨n, ?_⟩
    rw [hm, hf]
    rfl
  · refine ⟨n, ?_⟩
    rw [hm, hf]
    exact meet_moveOf host s _ _ action

theorem perform_pc {host : Host σ} {m : Machine} {s : σ} {next : Int} {action : Action}
    {out : Option Int} (h : (m.perform host s next action).result = .ok out)
    (hjump : ∀ target, action ≠ .jump target) (hhalt : action ≠ .halt) :
    (m.perform host s next action).machine.pc = next := by
  cases action with
  | store | emit | shiftBase | pass => rfl
  | jump target => exact absurd rfl (hjump target)
  | halt => exact absurd rfl hhalt
  | receive d =>
    simp only [perform] at h ⊢
    generalize host.take s = taken at h ⊢
    obtain ⟨given, s'⟩ := taken
    cases given with
    | error refusal => cases h
    | ok value =>
      simp only at h ⊢
      cases hv : value.toCell with
      | error e =>
        rw [hv] at h
        cases h
      | ok v => rfl

/-- The machine fails to decode the cell at its pointer, which holds this number. -/
def Stumbles (host : Host σ) (m : Machine) (s : σ) (v : Int) : Prop :=
  m.memory.peek m.pc = v ∧
    ((m.stepInstruction host s).result = .error (.fault (.unknownOpcode v)) ∨
      ∃ d, (m.stepInstruction host s).result = .error (.fault (.unknownMode d)))

/-- A running machine whose cells can be written fails so exactly where the cell does not decode. -/
theorem stumbles_iff {host : Host σ} {m : Machine} {s : σ} {v : Int} (hr : m.status = .running)
    (hpc : 0 ≤ m.pc) (hw : Numeral.isWritable (m.memory.peek m.pc) = true) :
    m.Stumbles host s v ↔ m.memory.peek m.pc = v ∧ ∃ f, Instruction.decode v = .error f := by
  have hi := instruction_tape hpc
  constructor
  · rintro ⟨rfl, hfault⟩
    refine ⟨rfl, ?_⟩
    cases hd : Instruction.decode (m.memory.peek m.pc) with
    | error f => exact ⟨f, rfl⟩
    | ok i =>
      have hfetch {f : Fault} (h : (m.stepInstruction host s).result = .error (.fault f)) :
          f = .illegalDestination ∨ ∃ a, f = .negativeAddress a := by
        have hmap := (Tape.fetch_eq_map (hi.trans hd)).symm.trans (fetch_of_fault h)
        cases ha : m.tape.action i with
        | error g =>
          rw [ha] at hmap
          cases hmap
          exact Tape.action_error ha
        | ok action =>
          rw [ha] at hmap
          cases hmap
      obtain hopcode | ⟨d, hmode⟩ := hfault
      · simpa using hfetch hopcode
      · simpa using hfetch hmode
  · rintro ⟨rfl, f, hd⟩
    refine ⟨rfl, ?_⟩
    have hresult : (m.stepInstruction host s).result = .error (.ofFault f) := by
      have hf : m.tape.fetch = .error f := by
        rw [Tape.fetch, hi, hd]
        rfl
      obtain ⟨n, hstep⟩ := stepInstruction_of_running host s hr
      rw [hstep, hf]
    obtain rfl | ⟨d, rfl⟩ := Instruction.decode_error hd
    · exact .inl (by rw [hresult, Error.ofFault, Fault.isWritable, hw, if_pos rfl])
    · exact .inr ⟨d, hresult⟩

/-- The machine carries out an instruction of so many cells, and takes the operands behind it each
in its mode. -/
structure CarriesOut (host : Host σ) (m : Machine) (s : σ) (i : Instruction) (width : Nat) :
    Prop where
  current : m.currentInstruction.1 = .ok i
  operand : ∀ k, ∃ n, (i.operand m.pc m.relativeBase k).run m.memory =
    Access.leave (m.tape.valueOf (i.mode k) (m.memory.peek (m.pc + k.offset))) (m.memory.grow n)
  destination : ∀ k, ∃ n, (i.destination m.pc m.relativeBase k).run m.memory =
    Access.leave (m.tape.targetOf (i.mode k) (m.memory.peek (m.pc + k.offset))) (m.memory.grow n)
  action : ∃ n, m.stepInstruction host s =
    match m.tape.action i with
    | .error f => ⟨.error (.ofFault f), { m with memory := m.memory.grow n }.fail f, s⟩
    | .ok action => { m with memory := m.memory.grow n }.perform host s (m.pc + width) action
  next : ∀ out, (m.stepInstruction host s).result = .ok out → i.opcode ≠ .halt → ¬ m.tape.Jumps i →
    (m.stepInstruction host s).machine.pc = m.pc + width

theorem carriesOut_of_decode (host : Host σ) {m : Machine} (s : σ) {i : Instruction}
    (hr : m.status = .running) (hpc : 0 ≤ m.pc)
    (hd : Instruction.decode (m.memory.peek m.pc) = .ok i) :
    m.CarriesOut host s i i.opcode.width := by
  have hi : m.tape.instruction = .ok i := (instruction_tape hpc).trans hd
  have hstep : ∃ n, m.stepInstruction host s =
      match m.tape.action i with
      | .error f => ⟨.error (.ofFault f), { m with memory := m.memory.grow n }.fail f, s⟩
      | .ok action =>
        { m with memory := m.memory.grow n }.perform host s (m.pc + i.opcode.width) action := by
    obtain ⟨n, hstep⟩ := stepInstruction_of_running host s hr
    refine ⟨n, hstep.trans ?_⟩
    rw [Tape.fetch_eq_map hi]
    cases m.tape.action i <;> rfl
  refine ⟨currentInstruction_of_decode hpc hd, fun k => ?_, fun k => ?_, hstep,
    fun out hout hhalt hjump => ?_⟩
  · obtain ⟨extent, he⟩ := Access.Views.operand hpc m.relativeBase i k
    rw [← raw_tape hpc]
    exact ⟨_, he m.memory⟩
  · obtain ⟨extent, he⟩ := Access.Views.destination hpc m.relativeBase i k
    rw [← raw_tape hpc]
    exact ⟨_, he m.memory⟩
  · obtain ⟨n, hstep⟩ := hstep
    cases ha : m.tape.action i with
    | error f =>
      rw [hstep, ha] at hout
      cases hout
    | ok action =>
      obtain ⟨hhalts, hjumps⟩ := Tape.action_ok ha
      rw [hstep, ha] at hout ⊢
      exact perform_pc hout (fun target h => hjump (hjumps target h)) fun h => hhalt (hhalts h)

end Machine

namespace Listing

/-- A text of so many cells shows an instruction: it starts with the name of the operation and lists
the cells behind it, each as an operand in its mode. -/
structure Shows (memory : Memory) (address : Int) (i : Instruction) (text : String) (width : Nat) :
    Prop where
  name : ∃ rest : String, text = i.opcode.name ++ rest
  line : text = line i.opcode (operands memory address i)
  offsets : i.parameters.map Parameter.offset = List.range' 1 i.parameters.length
  width : width = i.parameters.length + 1

/-- An entry says what a machine whose pointer is there does. -/
structure Agrees {σ : Type} (host : Host σ) (m : Machine) (s : σ) (text : String) (width : Nat) :
    Prop where
  data : ∀ v : Int, text = "DATA " ++ toString v ↔ m.Stumbles host s v
  dataWidth : ∀ v : Int, text = "DATA " ++ toString v → width = 1
  line : (∀ v, ¬ m.Stumbles host s v) →
    ∃ i, Shows m.memory m.pc i text width ∧ m.CarriesOut host s i width

theorem shows_line (memory : Memory) (address : Int) (i : Instruction) :
    Shows memory address i (line i.opcode (operands memory address i)) i.opcode.width := by
  refine ⟨line_eq_name _ _, rfl, ?_, ?_⟩
  all_goals
    obtain ⟨op, mode1, mode2, mode3⟩ := i
    cases op <;> rfl

/-- A listing has an entry for every address, and it agrees with what a machine there does. -/
theorem entry_agrees {σ : Type} (host : Host σ) (s : σ) {m : Machine} (hr : m.status = .running)
    (hpc : 0 ≤ m.pc) (hshort : ∀ n ∈ m.memory.toList, Numeral.IsShort n) :
    ∃ text width, entry m.memory m.pc = .ok (text, width) ∧ Agrees host m s text width := by
  have hentry := entry_eq (Memory.isWritable_peek hshort) m.pc
  have hstumbles (v : Int) : m.Stumbles host s v ↔ _ :=
    Machine.stumbles_iff hr hpc (Memory.isWritable_peek hshort _)
  cases hd : Instruction.decode (m.memory.peek m.pc) with
  | error f =>
    rw [hd] at hentry
    refine ⟨_, _, hentry, fun v => ?_, fun _ _ => rfl, fun hnot => ?_⟩
    · rw [hstumbles]
      constructor
      · intro h
        obtain rfl := Numeral.toString_injective ((String.append_right_inj "DATA ").mp h)
        exact ⟨rfl, f, hd⟩
      · rintro ⟨rfl, _⟩
        rfl
    · exact absurd ((hstumbles _).mpr ⟨rfl, f, hd⟩) (hnot _)
  | ok i =>
    rw [hd] at hentry
    refine ⟨_, _, hentry, fun v => ?_, fun v h => absurd h (line_ne_data _ _ v), fun _ => ?_⟩
    · rw [hstumbles]
      constructor
      · intro h
        exact absurd h (line_ne_data _ _ v)
      · rintro ⟨rfl, f, hf⟩
        cases hd.symm.trans hf
    · exact ⟨i, shows_line _ _ i, Machine.carriesOut_of_decode host s hr hpc hd⟩

/-- A sum whose last cells are past the end of the memory. -/
theorem entry_agrees_past_end :
    let m : Machine := { memory := .ofList [99, 21101, 7], pc := 1, relativeBase := 1 }
    entry m.memory m.pc = .ok ("ADD  #7, #0, [rb+0]", 4) ∧
      Agrees (.absent Unit) m () "ADD  #7, #0, [rb+0]" 4 ∧
      (m.stepInstruction (.absent Unit) ()).machine.pc = 5 := by
  intro m
  have hshort : ∀ n ∈ m.memory.toList, Numeral.IsShort n := by
    intro n hn
    refine Numeral.isWritable_iff.mp ?_
    revert n
    decide +kernel
  have hentry : entry m.memory m.pc = .ok ("ADD  #7, #0, [rb+0]", 4) := by decide +kernel
  obtain ⟨text, width, h, hagrees⟩ := entry_agrees (.absent Unit) () (m := m) rfl (by decide) hshort
  cases hentry.symm.trans h
  exact ⟨hentry, hagrees, by decide +kernel⟩

end Listing

end Intcode
