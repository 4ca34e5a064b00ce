import Intcode.Peripheral.Basic
import Intcode.Proofs.Status

namespace Intcode

namespace Opcode

/-- The parameters whose values an operation reads. -/
def operands : Opcode → List Parameter
  | .add | .multiply | .lessThan | .equals | .jumpIfTrue | .jumpIfFalse => [.first, .second]
  | .output | .adjustBase => [.first]
  | .input | .halt => []

/-- The parameter that an operation stores into. -/
def destination? : Opcode → Option Parameter
  | .add | .multiply | .lessThan | .equals => some .third
  | .input => some .first
  | .output | .jumpIfTrue | .jumpIfFalse | .adjustBase | .halt => none

end Opcode

namespace Tape

/-- The instruction at the pointer cannot be carried out. -/
inductive Malformed (t : Tape) : Prop
  | undecodable {f : Fault} : t.instruction = .error f → Malformed t
  | negativeOperand {i : Instruction} {k : Parameter} {a : Int} : t.instruction = .ok i →
      k ∈ i.opcode.operands → t.value i k = .error (.negativeAddress a) → Malformed t
  | negativeDestination {i : Instruction} {k : Parameter} {a : Int} : t.instruction = .ok i →
      i.opcode.destination? = some k → t.target i k = .error (.negativeAddress a) → Malformed t
  | immediateDestination {i : Instruction} {k : Parameter} : t.instruction = .ok i →
      i.opcode.destination? = some k → i.mode k = .immediate → Malformed t

theorem index_error {address : Int} {f : Fault} (h : Access.index address = .error f) :
    f = .negativeAddress address := by
  unfold Access.index at h
  split at h <;> cases h
  rfl

theorem value_error {t : Tape} {i : Instruction} {k : Parameter} {f : Fault}
    (h : t.value i k = .error f) : ∃ a, f = .negativeAddress a := by
  have hread (a : Int) (hr : t.read a = .error f) : f = .negativeAddress a := by
    cases hi : Access.index a with
    | error g =>
      rw [read, hi] at hr
      cases hr
      exact index_error hi
    | ok n =>
      rw [read, hi] at hr
      cases hr
  unfold value valueOf at h
  cases hm : i.mode k with
  | position => exact ⟨_, hread _ (by simpa only [hm] using h)⟩
  | immediate => simp [hm] at h
  | relative => exact ⟨_, hread _ (by simpa only [hm] using h)⟩

theorem target_error {t : Tape} {i : Instruction} {k : Parameter} {f : Fault}
    (h : t.target i k = .error f) : i.mode k = .immediate ∨ ∃ a, f = .negativeAddress a := by
  unfold target targetOf at h
  cases hm : i.mode k with
  | position => exact .inr ⟨_, index_error (by simpa only [hm] using h)⟩
  | immediate => exact .inl rfl
  | relative => exact .inr ⟨_, index_error (by simpa only [hm] using h)⟩

theorem action_fails_iff (t : Tape) (i : Instruction) :
    (∃ f, t.action i = .error f) ↔
      (∃ k ∈ i.opcode.operands, ∃ f, t.value i k = .error f) ∨
        ∃ k, i.opcode.destination? = some k ∧ ∃ f, t.target i k = .error f := by
  unfold action
  obtain ⟨op, mode1, mode2, mode3⟩ := i
  generalize hfirst : t.value ⟨op, mode1, mode2, mode3⟩ .first = first
  generalize hsecond : t.value ⟨op, mode1, mode2, mode3⟩ .second = second
  cases op with
  | halt => simp [Opcode.operands, Opcode.destination?, pure, Except.pure]
  | input =>
    cases ht : t.target ⟨.input, mode1, mode2, mode3⟩ .first <;>
      simp [Opcode.operands, Opcode.destination?, bind, Except.bind, pure, Except.pure, ht]
  | output | adjustBase =>
    cases first <;>
      simp [Opcode.operands, Opcode.destination?, bind, Except.bind, pure, Except.pure, hfirst]
  | jumpIfTrue | jumpIfFalse =>
    cases first <;> cases second <;>
      simp [Opcode.operands, Opcode.destination?, bind, Except.bind, pure, Except.pure, hfirst,
        hsecond]
  | add | multiply | lessThan | equals =>
    cases first <;> cases second <;> cases ht : t.target ⟨_, mode1, mode2, mode3⟩ .third <;>
      simp [Opcode.operands, Opcode.destination?, bind, Except.bind, pure, Except.pure, hfirst,
        hsecond, ht]

theorem fetch_eq_map {t : Tape} {i : Instruction} (hi : t.instruction = .ok i) :
    t.fetch = (t.action i).map fun action => (i, action) := by
  unfold fetch
  simp only [hi, bind, Except.bind]
  cases t.action i <;> rfl

theorem malformed_iff {t : Tape} : t.Malformed ↔ ∃ f, t.fetch = .error f := by
  constructor
  · intro h
    have hshown {i : Instruction} (hi : t.instruction = .ok i) (ha : ∃ f, t.action i = .error f) :
        ∃ f, t.fetch = .error f := by
      obtain ⟨f, ha⟩ := ha
      exact ⟨f, by rw [fetch_eq_map hi, ha]; rfl⟩
    cases h with
    | @undecodable f hf => exact ⟨f, by rw [fetch, hf]; rfl⟩
    | negativeOperand hi hk hv => exact hshown hi ((action_fails_iff t _).mpr (.inl ⟨_, hk, _, hv⟩))
    | negativeDestination hi hk ht =>
      exact hshown hi ((action_fails_iff t _).mpr (.inr ⟨_, hk, _, ht⟩))
    | @immediateDestination i k hi hk hm =>
      have ht : t.target i k = .error .illegalDestination := by rw [target, hm, targetOf]
      exact hshown hi ((action_fails_iff t _).mpr (.inr ⟨_, hk, _, ht⟩))
  · rintro ⟨f, hf⟩
    cases hi : t.instruction with
    | error g => exact .undecodable hi
    | ok i =>
      have ha : ∃ g, t.action i = .error g := by
        rw [fetch_eq_map hi] at hf
        cases ha : t.action i with
        | error g => exact ⟨g, rfl⟩
        | ok action =>
          rw [ha] at hf
          cases hf
      obtain ⟨k, hk, g, hv⟩ | ⟨k, hk, g, ht⟩ := (action_fails_iff t i).mp ha
      · obtain ⟨a, rfl⟩ := value_error hv
        exact .negativeOperand hi hk hv
      · obtain hm | ⟨a, rfl⟩ := target_error ht
        · exact .immediateDestination hi hk hm
        · exact .negativeDestination hi hk ht

end Tape

namespace Machine

/-- What a machine is after a fault. One that can be worded is the error, and the machine has
stopped with it and refuses every instruction; one that cannot be worded is lost, and the machine
runs on to come to it again. -/
structure Failed (f : Fault) (e : Error) (m : Machine) : Prop where
  stopped : f.isWritable = true → e = .fault f ∧ m.status = .faulted f ∧
    ∀ {σ : Type} (host : Host σ) (s : σ), m.stepInstruction host s =
      ⟨.error (.halted (some f)), m, s⟩
  lost : f.isWritable = false → e = .numeral .tooLong ∧ m.status = .running ∧
    m.tape.fetch = .error f

theorem failed_of_fail {m : Machine} {f : Fault} (hr : m.status = .running)
    (hf : m.tape.fetch = .error f) : Failed f (.ofFault f) (m.fail f) := by
  refine ⟨fun hw => ?_, fun hw => ?_⟩
  · have hs : (m.fail f).status = .faulted f := by simp [fail, hw]
    refine ⟨by simp [Error.ofFault, hw], hs, fun host s => ?_⟩
    simp [stepInstruction, hs]
  · have hm : m.fail f = m := by simp [fail, hw]
    exact ⟨by simp [Error.ofFault, hw], by rw [hm, hr], by rw [hm, hf]⟩

/-- A running machine at a malformed instruction fails with its fault, whatever its host. -/
theorem move_of_malformed {m : Machine} (hr : m.status = .running) (hm : m.tape.Malformed) :
    ∃ f dead, m.move = .done (.error (.ofFault f)) dead ∧ m.tape.fetch = .error f ∧
      Failed f (.ofFault f) dead := by
  obtain ⟨f, hf⟩ := Tape.malformed_iff.mp hm
  obtain ⟨n, ⟨g, hg, hdone⟩ | ⟨i, action, hok, _⟩⟩ := move_of_running hr
  · cases hf.symm.trans hg
    have htape := (Kept.grow m n).tape
    exact ⟨f, _, hdone, hf, failed_of_fail hr (htape ▸ hf)⟩
  · cases hf.symm.trans hok

section

variable {σ : Type} {host : Host σ} {hand : Int → σ → Option σ}

/-- The machine completes instructions in a row with its host, which is handed every output. -/
inductive Comes (host : Host σ) (hand : Int → σ → Option σ) :
    Machine → σ → List Int → Machine → σ → Prop
  | refl (m : Machine) (s : σ) : Comes host hand m s [] m s
  | silent {m m₁ m' : Machine} {s s₁ s' : σ} {outputs : List Int} :
      m.stepWatched host s = ⟨.ok none, m₁, s₁⟩ → Comes host hand m₁ s₁ outputs m' s' →
      Comes host hand m s outputs m' s'
  | output {m m₁ m' : Machine} {s s₁ s₂ s' : σ} {v : Int} {outputs : List Int} :
      m.stepWatched host s = ⟨.ok (some v), m₁, s₁⟩ → hand v s₁ = some s₂ →
      Comes host hand m₁ s₂ outputs m' s' → Comes host hand m s (v :: outputs) m' s'

theorem running_of_stepWatched {m m₁ : Machine} {s s₁ : σ} {out : Option Int}
    (h : m.stepWatched host s = ⟨.ok out, m₁, s₁⟩) : m.isRunning = true := by
  by_contra hr
  have hh : m.isHalted = true := by simpa [isHalted] using hr
  rw [stepWatched, stepInstruction_of_halted hh] at h
  cases h

theorem Comes.isRunning {m m' : Machine} {s s' : σ} {outputs : List Int}
    (h : Comes host hand m s outputs m' s') (hr : m'.status = .running) : m.isRunning = true := by
  cases h with
  | refl => exact isRunning_iff.mpr hr
  | silent hw | output hw => exact running_of_stepWatched hw

theorem stepWatched_of_done {m m' : Machine} {result : Except Error (Option Int)}
    (h : m.move = .done result m') (s : σ) :
    m.stepWatched host s = ⟨result, m', host.watch m result s⟩ := by
  simp [stepWatched, stepInstruction_eq_meet, h, Move.meet]

section

variable {m m' dead : Machine} {s s' : σ} {e : Error}
  (hr : m'.status = .running) (hm : m'.move = .done (.error e) dead)

include hr hm

theorem step_of_comes (h : Comes host hand m s [] m' s') :
    ∃ enough, ∀ fuel ≥ enough,
      m.step host fuel s = some ⟨.error e, dead, host.watch m' (.error e) s'⟩ := by
  generalize hn : ([] : List Int) = outputs at h
  obtain ⟨fuel, hfuel⟩ : ∃ fuel,
      m.step host fuel s = some ⟨.error e, dead, host.watch m' (.error e) s'⟩ := by
    induction h with
    | refl m s => exact ⟨1, step_of_stop (stepWatched_of_done hm s) (by simp) 0⟩
    | silent hw hrest ih =>
      obtain ⟨fuel, hfuel⟩ := ih hr hm hn
      exact ⟨fuel + 1, (step_of_silent hw (hrest.isRunning hr) fuel).trans hfuel⟩
    | output => cases hn
  exact ⟨fuel, fun more hmore => step_mono hfuel hmore⟩

theorem collectFrom_of_comes {outputs : List Int} (h : Comes host hand m s outputs m' s')
    (hhand : ∀ v s, hand v s = some s) (earlier : List Int) :
    ∃ enough, ∀ fuel ≥ enough,
      m.collectFrom host fuel earlier s = some ⟨.error e, dead, host.watch m' (.error e) s'⟩ := by
  obtain ⟨fuel, hfuel⟩ : ∃ fuel,
      m.collectFrom host fuel earlier s = some ⟨.error e, dead, host.watch m' (.error e) s'⟩ := by
    induction h generalizing earlier with
    | refl m s => exact ⟨1, collectFrom_of_error earlier (stepWatched_of_done hm s)⟩
    | silent hw hrest ih =>
      obtain ⟨fuel, hfuel⟩ := ih hr hm earlier
      exact ⟨fuel + 1, collectFrom_of_silent hw (hrest.isRunning hr) hfuel⟩
    | @output _ m₁ _ _ s₁ s₂ _ v _ hw hv _ ih =>
      obtain rfl : s₁ = s₂ := Option.some.inj ((hhand v s₁).symm.trans hv)
      obtain ⟨fuel, hfuel⟩ := ih hr hm (v :: earlier)
      exact ⟨fuel + 1, collectFrom_of_output hw hfuel⟩
  exact ⟨fuel, fun more hmore => collectFrom_mono hfuel hmore⟩

end

end

end Machine

namespace Device

variable {δ : Type} {device : Device δ} {limit : Option Int}

/-- The device after one output of the program, if it takes it. -/
def accept (device : Device δ) (v : Int) (d : δ) : Option δ :=
  match device.feed v d with
  | (.ok _, d) => some d
  | (.error _, _) => none

theorem accept_eq_some {v : Int} {d d' : δ} (h : device.accept v d = some d') :
    device.feed v d = (.ok (), d') := by
  unfold accept at h
  split at h
  next hf =>
    cases h
    exact hf
  next => cases h

theorem driveFrom_mono {fuel fuel' count : Nat} {m : Machine} {d : δ} {o : Outcome δ Nat}
    (h : device.driveFrom limit fuel count m d = some o) (hle : fuel ≤ fuel') :
    device.driveFrom limit fuel' count m d = some o := by
  induction fuel generalizing fuel' count m d with
  | zero => simp [driveFrom] at h
  | succ fuel ih =>
    obtain ⟨more, rfl⟩ : ∃ more, fuel' = more + 1 := ⟨fuel' - 1, by omega⟩
    simp only [driveFrom] at h ⊢
    split at h
    next hl => rwa [if_pos hl]
    next hl =>
      rw [if_neg hl]
      cases hs : m.step device.toHost (fuel + 1) d with
      | none => simp [hs] at h
      | some o₁ =>
        rw [Machine.step_mono hs hle]
        simp only [hs] at h ⊢
        split at h
        next => exact h
        next => exact h
        next v hv =>
          split at h
          next hf => exact h
          next d' hf => exact ih h (by omega)

theorem reached_of_le {count count' : Nat} (hle : count ≤ count')
    (h : reached limit count' = false) :
    reached limit count = false := by
  unfold reached at h ⊢
  cases limit with
  | none => rfl
  | some n =>
    simp only [decide_eq_false_iff_not] at h ⊢
    omega

theorem driveFrom_of_silent {fuel count : Nat} {m m₁ : Machine} {d d₁ : δ} {o : Outcome δ Nat}
    (hl : reached limit count = false) (hw : m.stepWatched device.toHost d = ⟨.ok none, m₁, d₁⟩)
    (hr : m₁.isRunning = true) (hd : device.driveFrom limit fuel count m₁ d₁ = some o) :
    device.driveFrom limit (fuel + 1) count m d = some o := by
  cases fuel with
  | zero => simp [driveFrom] at hd
  | succ fuel =>
    -- The silent instruction is part of the first run to an output: the rest has less fuel.
    rw [driveFrom, if_neg (by simp [hl])] at hd ⊢
    rw [Machine.step_of_silent hw hr]
    cases hs : m₁.step device.toHost (fuel + 1) d₁ with
    | none => simp [hs] at hd
    | some o₁ =>
      simp only [hs] at hd ⊢
      split at hd
      next => exact hd
      next => exact hd
      next v hv =>
        split at hd
        next => exact hd
        next d₂ _ => exact driveFrom_mono hd (Nat.le_succ fuel)

theorem driveFrom_of_output {fuel count : Nat} {m m₁ : Machine} {d d₁ d₂ : δ} {v : Int}
    {o : Outcome δ Nat} (hl : reached limit count = false)
    (hw : m.stepWatched device.toHost d = ⟨.ok (some v), m₁, d₁⟩)
    (hf : device.feed v d₁ = (.ok (), d₂))
    (hd : device.driveFrom limit fuel (count + 1) m₁ d₂ = some o) :
    device.driveFrom limit (fuel + 1) count m d = some o := by
  rw [driveFrom, if_neg (by simp [hl]), Machine.step_of_stop hw (by simp)]
  simp only [hf]
  exact hd

theorem driveFrom_of_comes {m m' dead : Machine} {d d' : δ} {e : Error} {outputs : List Int}
    (hr : m'.status = .running) (hm : m'.move = .done (.error e) dead)
    (h : m.Comes device.toHost device.accept d outputs m' d') {count : Nat}
    (hl : reached limit (count + outputs.length) = false) :
    ∃ enough, ∀ fuel ≥ enough, device.driveFrom limit fuel count m d =
      some ⟨.error e, dead, device.watch m' (.error e) d'⟩ := by
  obtain ⟨fuel, hfuel⟩ : ∃ fuel, device.driveFrom limit fuel count m d =
      some ⟨.error e, dead, device.watch m' (.error e) d'⟩ := by
    induction h generalizing count with
    | refl m d =>
      refine ⟨1, ?_⟩
      rw [driveFrom, if_neg (by simpa using hl),
        Machine.step_of_stop (Machine.stepWatched_of_done hm d) (by simp)]
    | silent hw hrest ih =>
      obtain ⟨fuel, hfuel⟩ := ih hr hm hl
      have hstart := reached_of_le (Nat.le_add_right _ _) hl
      exact ⟨fuel + 1, driveFrom_of_silent hstart hw (hrest.isRunning hr) hfuel⟩
    | @output m m₁ _ d d₁ d₂ _ v outputs hw hv _ ih =>
      have hnext : reached limit (count + 1 + outputs.length) = false := by
        rw [Nat.add_right_comm]
        exact hl
      obtain ⟨fuel, hfuel⟩ := ih hr hm hnext
      have hstart := reached_of_le (Nat.le_add_right _ _) hl
      exact ⟨fuel + 1, driveFrom_of_output hstart hw (accept_eq_some hv) hfuel⟩
  exact ⟨fuel, fun more hmore => driveFrom_mono hfuel hmore⟩

end Device

end Intcode
