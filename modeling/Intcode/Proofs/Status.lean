import Intcode.Proofs.Failure
import Intcode.Proofs.Record

namespace Intcode

namespace Machine

section

variable {σ : Type} {host : Host σ}

/-- What comes of the status when an operation has a result: it stays, or a running machine halts
without an error, or it is stopped by the fault that is the error. -/
def Settles {α : Type} (m : Machine) (result : Except Error α) (m' : Machine) : Prop :=
  m'.status = m.status ∨ m.status = .running ∧
    (m'.status = .halted ∧ result.isOk = true ∨
      ∃ f, m'.status = .faulted f ∧ result = .error (.fault f))

theorem Settles.of_stays {α : Type} {m m' : Machine} {result : Except Error α}
    (h : m'.status = m.status) : m.Settles result m' := .inl h

theorem Settles.map {α β : Type} {m m' : Machine} {result : Except Error α} {f : α → β}
    (h : m.Settles result m') : m.Settles (result.map f) m' := by
  rcases h with hs | ⟨hr, ⟨hh, hok⟩ | ⟨f, hf, rfl⟩⟩
  · exact .inl hs
  · refine .inr ⟨hr, .inl ⟨hh, ?_⟩⟩
    cases result with
    | error e => exact hok
    | ok v => rfl
  · exact .inr ⟨hr, .inr ⟨f, hf, rfl⟩⟩

theorem settles_of_fail {α : Type} {m : Machine} (hr : m.status = .running) (f : Fault) :
    m.Settles (.error (.ofFault f) : Except Error α) (m.fail f) := by
  unfold fail Error.ofFault
  cases f.isWritable with
  | true => exact .inr ⟨hr, .inr ⟨f, rfl, rfl⟩⟩
  | false => exact .inl rfl

theorem moveOf_settles {m m' : Machine} {next : Int} {action : Action}
    {result : Except Error (Option Int)} (hr : m.status = .running)
    (h : m.moveOf next action = .done result m') : m.Settles result m' := by
  cases action with
  | receive d => cases h
  | halt =>
    cases h
    exact .inr ⟨hr, .inl ⟨rfl, rfl⟩⟩
  | store | emit | jump | shiftBase | pass =>
    cases h
    exact .inl rfl

theorem move_settles {m m' : Machine} {result : Except Error (Option Int)}
    (h : m.move = .done result m') : m.Settles result m' := by
  by_cases hr : m.status = .running
  · obtain ⟨n, ⟨f, _, hm⟩ | ⟨i, action, _, hm⟩⟩ := move_of_running hr
    · cases h.symm.trans hm
      exact settles_of_fail (m := { m with memory := m.memory.grow n }) hr f
    · exact moveOf_settles (m := { m with memory := m.memory.grow n }) hr (hm.symm.trans h)
  · obtain ⟨cause, hm⟩ := move_of_stopped hr
    cases h.symm.trans hm
    exact .inl rfl

theorem meet_await (host : Host σ) (s : σ) (w : Machine) (d : Nat) (next : Int) :
    (∃ e s', (Move.await w d next).meet host s = ⟨.error e, w, s'⟩) ∨
      ∃ v s', (Move.await w d next).meet host s = ⟨.ok none, w.accept d v next, s'⟩ := by
  simp only [Move.meet, perform]
  generalize host.take s = taken
  obtain ⟨given, s'⟩ := taken
  cases given with
  | error refusal => exact .inl ⟨refusal.toError, s', rfl⟩
  | ok value =>
    simp only
    cases value.toCell with
    | error e => exact .inl ⟨e, s', rfl⟩
    | ok v => exact .inr ⟨v, s', rfl⟩

theorem stepInstruction_settles (host : Host σ) (m : Machine) (s : σ) :
    m.Settles (m.stepInstruction host s).result (m.stepInstruction host s).machine := by
  rw [stepInstruction_eq_meet]
  cases hm : m.move with
  | done result m' => exact move_settles hm
  | await w d next =>
    have hr := (move_eq_await.mp hm).1
    obtain ⟨_, hw, _⟩ := move_awaits hm
    obtain ⟨e, s', ho⟩ | ⟨v, s', ho⟩ := meet_await host s w d next
    · rw [ho]
      exact .of_stays (hw.trans hr.symm)
    · rw [ho]
      exact .of_stays (hw.trans hr.symm)

theorem stepInstruction_output {m : Machine} {s : σ} {v : Int}
    (h : (m.stepInstruction host s).result = .ok (some v)) :
    (m.stepInstruction host s).machine.isRunning = true := by
  rw [stepInstruction_eq_meet] at h ⊢
  cases hm : m.move with
  | done result m' =>
    rw [hm] at h
    obtain rfl : result = .ok (some v) := h
    exact move_output hm
  | await w d next =>
    rw [hm] at h
    obtain ⟨e, s', ho⟩ | ⟨v, s', ho⟩ := meet_await host s w d next
    · rw [ho] at h
      cases h
    · rw [ho] at h
      cases h

theorem Settles.after_running {α : Type} {m m₁ m' : Machine} {result : Except Error α}
    {out : Option Int} (h₁ : m.Settles (.ok out) m₁) (hr : m₁.isRunning = true)
    (h : m₁.Settles result m') : m.Settles result m' := by
  have hsame : m₁.status = m.status := by
    rcases h₁ with hs | ⟨_, ⟨hh, _⟩ | ⟨f, _, hf⟩⟩
    · exact hs
    · exact absurd (isRunning_iff.mp hr) (by simp [hh])
    · cases hf
  rcases h with hs | ⟨hrun, hstop⟩
  · exact .inl (hs.trans hsame)
  · exact .inr ⟨hsame.symm.trans hrun, hstop⟩

theorem step_settles {fuel : Nat} {m : Machine} {s : σ} {o : Outcome σ (Option Int)}
    (h : m.step host fuel s = some o) : m.Settles o.result o.machine := by
  refine step_induction (motive := fun m s o => m.Settles o.result o.machine)
    (fun m s _ => stepInstruction_settles host m s) (fun m s _ hn hr ih => ?_) h
  have hfirst : m.Settles (m.stepWatched host s).result (m.stepWatched host s).machine :=
    stepInstruction_settles host m s
  rw [hn] at hfirst
  exact hfirst.after_running hr ih

theorem step_output {fuel : Nat} {m : Machine} {s : σ} {o : Outcome σ (Option Int)} {v : Int}
    (h : m.step host fuel s = some o) (hv : o.result = .ok (some v)) : o.machine.isRunning = true :=
  step_induction (motive := fun _ _ o => o.result = .ok (some v) → o.machine.isRunning = true)
    (fun _ _ _ => stepInstruction_output) (fun _ _ _ _ _ ih => ih) h hv

theorem step_halted {fuel : Nat} {m : Machine} {s : σ} {o : Outcome σ (Option Int)}
    (h : m.step host fuel s = some o) (hn : o.result = .ok none) : o.machine.isRunning = false :=
  step_induction (motive := fun _ _ o => o.result = .ok none → o.machine.isRunning = false)
    (fun _ _ hstop => hstop) (fun _ _ _ _ _ ih => ih) h hn

theorem collectFrom_settles {fuel : Nat} {earlier : List Int} {m : Machine} {s : σ}
    {o : Outcome σ (List Int)} (h : m.collectFrom host fuel earlier s = some o) :
    m.Settles o.result o.machine := by
  refine collectFrom_induction (motive := fun m s o => m.Settles o.result o.machine)
    (fun _ _ _ _ e ho he => ?_) (fun _ _ _ _ _ ho hn => ?_)
    (fun _ _ _ _ v _ ho hv ih => ?_) h
  · rcases he ▸ step_settles ho with hs | ⟨hr, ⟨_, hok⟩ | ⟨f, hf, hfe⟩⟩
    · exact .inl hs
    · cases hok
    · cases hfe
      exact .inr ⟨hr, .inr ⟨f, hf, rfl⟩⟩
  · rcases hn ▸ step_settles ho with hs | ⟨hr, ⟨hh, _⟩ | ⟨f, _, hfe⟩⟩
    · exact .inl hs
    · exact .inr ⟨hr, .inl ⟨hh, rfl⟩⟩
    · cases hfe
  · exact (hv ▸ step_settles ho).after_running (step_output ho hv) ih

theorem isHalted_congr {m m' : Machine} (h : m'.status = m.status) : m'.isHalted = m.isHalted := by
  rw [isHalted, isHalted, isRunning, isRunning, h]

theorem fault?_congr {m m' : Machine} (h : m'.status = m.status) : m'.fault? = m.fault? := by
  rw [fault?, fault?, h]

theorem fault?_eq_some {m : Machine} {f : Fault} : m.fault? = some f ↔ m.status = .faulted f := by
  unfold fault?
  cases m.status <;> simp

theorem stepInstruction_of_halted {m : Machine} (h : m.isHalted = true) (s : σ) :
    m.stepInstruction host s = ⟨.error (.halted m.fault?), m, s⟩ := by
  unfold stepInstruction fault?
  cases hs : m.status with
  | running => simp [isHalted, isRunning, hs] at h
  | halted => rfl
  | faulted f => rfl

theorem step_of_halted {m : Machine} (h : m.isHalted = true) (fuel : Nat) (s : σ) :
    m.step host (fuel + 1) s =
      some ⟨.error (.halted m.fault?), m, host.watch m (.error (.halted m.fault?)) s⟩ := by
  rw [step, stepWatched, stepInstruction_of_halted h]

theorem collect_of_halted {m : Machine} (h : m.isHalted = true) (fuel : Nat) (s : σ) :
    m.collect host (fuel + 1) s =
      some ⟨.error (.halted m.fault?), m, host.watch m (.error (.halted m.fault?)) s⟩ := by
  rw [collect, collectFrom, step_of_halted h]

end

end Machine

end Intcode
