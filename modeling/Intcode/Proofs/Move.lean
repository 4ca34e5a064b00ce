import Intcode.Machine.Run
import Intcode.Proofs.Tape

namespace Intcode

/-- An instruction apart from its host: it is done, or it waits for a value to store. -/
inductive Move where
  | done (result : Except Error (Option Int)) (m : Machine)
  | await (m : Machine) (destination : Nat) (next : Int)

/-- What a move comes to with a host. -/
def Move.meet {σ : Type} (host : Host σ) (s : σ) : Move → Outcome σ (Option Int)
  | .done result m => ⟨result, m, s⟩
  | .await m d next => m.perform host s next (.receive d)

namespace Machine

def moveOf (m : Machine) (next : Int) (action : Action) : Move :=
  match action with
  | .receive d => .await m d next
  | _ => .done (m.perform (.absent Unit) () next action).result
      (m.perform (.absent Unit) () next action).machine

def move (m : Machine) : Move :=
  match m.status with
  | .halted => .done (.error (.halted none)) m
  | .faulted f => .done (.error (.halted (some f))) m
  | .running =>
    match m.fetch.run m.memory with
    | .error f memory => .done (.error (.ofFault f)) ({ m with memory }.fail f)
    | .ok (i, action) memory => { m with memory }.moveOf (m.pc + i.opcode.width) action

def accept (m : Machine) (d : Nat) (v next : Int) : Machine :=
  { m with memory := m.memory.set d v }.advance next

theorem isRunning_iff {m : Machine} : m.isRunning = true ↔ m.status = .running := by
  simp [isRunning]

theorem isRunning_eq_false {m : Machine} : m.isRunning = false ↔ m.status ≠ .running := by
  simp [isRunning]

theorem isHalted_iff {m : Machine} : m.isHalted = true ↔ m.status ≠ .running := by
  simp [isHalted, isRunning]

theorem isHalted_eq_false {m : Machine} : m.isHalted = false ↔ m.status = .running := by
  simp [isHalted, isRunning]

theorem meet_moveOf {σ : Type} (host : Host σ) (s : σ) (m : Machine) (next : Int)
    (action : Action) :
    (m.moveOf next action).meet host s = m.perform host s next action := by
  cases action <;> rfl

theorem stepInstruction_eq_meet {σ : Type} (host : Host σ) (m : Machine) (s : σ) :
    m.stepInstruction host s = m.move.meet host s := by
  unfold stepInstruction move
  cases m.status with
  | halted => rfl
  | faulted f => rfl
  | running =>
    simp only
    cases m.fetch.run m.memory with
    | error f memory => rfl
    | ok fetched memory => exact (meet_moveOf host s _ _ _).symm

theorem moveOf_eq_await {m w : Machine} {next pc : Int} {action : Action} {d : Nat} :
    m.moveOf next action = .await w d pc ↔ action = .receive d ∧ w = m ∧ pc = next := by
  constructor
  · intro h
    cases action <;> cases h
    exact ⟨rfl, rfl, rfl⟩
  · rintro ⟨rfl, rfl, rfl⟩
    rfl

theorem move_eq_await {m w : Machine} {d : Nat} {next : Int} :
    m.move = .await w d next ↔ m.status = .running ∧ ∃ i memory,
      m.fetch.run m.memory = .ok (i, .receive d) memory ∧ w = { m with memory } ∧
        next = m.pc + i.opcode.width := by
  unfold move
  cases m.status with
  | halted => simp
  | faulted f => simp
  | running =>
    simp only [true_and]
    cases m.fetch.run m.memory with
    | error f memory => simp
    | ok fetched memory =>
      obtain ⟨i, action⟩ := fetched
      simp only [moveOf_eq_await]
      constructor
      · rintro ⟨rfl, rfl, rfl⟩
        exact ⟨i, memory, rfl, rfl, rfl⟩
      · rintro ⟨j, grown, hf, rfl, rfl⟩
        cases hf
        exact ⟨rfl, rfl, rfl⟩

theorem move_await_accept {m w : Machine} {d : Nat} {next : Int} (h : m.move = .await w d next)
    (v : Int) : (w.accept d v next).status = .running := by
  obtain ⟨hr, _, _, _, rfl, _⟩ := move_eq_await.mp h
  exact hr

/-- A machine that waits has grown its memory as far as it needs, so that it waits as before. -/
theorem move_await_again {m w : Machine} {d : Nat} {next : Int} (h : m.move = .await w d next) :
    w.move = .await w d next := by
  obtain ⟨hr, i, memory, hf, rfl, hn⟩ := move_eq_await.mp h
  obtain ⟨view, hv⟩ : ∃ view, m.fetch.Views view := ⟨_, Access.Views.fetch m⟩
  exact move_eq_await.mpr ⟨hr, i, memory, hv.again hf, rfl, hn⟩

theorem moveOf_ok {m m' : Machine} {next : Int} {action : Action} {out : Option Int}
    (h : m.moveOf next action = .done (.ok out) m') :
    m'.status = m.status ∨ m'.status = .halted ∧ out = none := by
  cases action <;> cases h
  all_goals first | exact .inl rfl | exact .inr ⟨rfl, rfl⟩

theorem move_ok {m m' : Machine} {out : Option Int} (h : m.move = .done (.ok out) m') :
    m.status = .running ∧ (m'.status = .running ∨ m'.status = .halted ∧ out = none) := by
  unfold move at h
  cases hs : m.status with
  | halted => simp [hs] at h
  | faulted f => simp [hs] at h
  | running =>
    simp only [hs] at h
    cases hf : m.fetch.run m.memory with
    | error f memory => simp [hf] at h
    | ok fetched memory =>
      simp only [hf] at h
      exact ⟨rfl, moveOf_ok h⟩

theorem move_output {m m' : Machine} {v : Int} (h : m.move = .done (.ok (some v)) m') :
    m'.isRunning = true :=
  isRunning_iff.mpr ((move_ok h).2.resolve_right (by simp))

theorem move_error {m m' : Machine} {e : Error} (h : m.move = .done (.error e) m')
    (why : Exhaustion) :
    e ≠ .inputExhausted why := by
  rintro rfl
  unfold move at h
  cases hs : m.status with
  | halted => simp [hs] at h
  | faulted f => simp [hs] at h
  | running =>
    simp only [hs] at h
    cases hf : m.fetch.run m.memory with
    | error f memory =>
      simp only [hf, Error.ofFault] at h
      split at h <;> cases h
    | ok fetched memory =>
      simp only [hf] at h
      obtain ⟨i, action⟩ := fetched
      cases action <;> cases h

end Machine

end Intcode
