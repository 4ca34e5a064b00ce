import Intcode.Proofs.Move
import Intcode.Queue
import Mathlib.Data.List.Basic

namespace Intcode

namespace Machine

/-- The machine has its registers, counters and cells from before, perhaps with zeros behind
them. -/
structure Kept (m m' : Machine) : Prop where
  pc : m'.pc = m.pc
  relativeBase : m'.relativeBase = m.relativeBase
  executed : m'.executed = m.executed
  emitted : m'.emitted = m.emitted
  memory : ∃ n, m'.memory.toList = m.memory.toList ++ List.replicate n 0

theorem Kept.refl (m : Machine) : m.Kept m := ⟨rfl, rfl, rfl, rfl, 0, by simp⟩

theorem Kept.grow (m : Machine) (n : Nat) : m.Kept { m with memory := m.memory.grow n } :=
  ⟨rfl, rfl, rfl, rfl, n - m.memory.size, Memory.toList_grow m.memory n⟩

theorem Kept.fail {m m' : Machine} (h : m.Kept m') (f : Fault) : m.Kept (m'.fail f) := by
  unfold Machine.fail
  split
  · exact ⟨h.pc, h.relativeBase, h.executed, h.emitted, h.memory⟩
  · exact h

theorem Kept.tape {m m' : Machine} (h : m.Kept m') : m'.tape = m.tape := by
  obtain ⟨n, hn⟩ := h.memory
  have hget : m'.memory.get = m.memory.get := by
    funext a
    rw [Memory.get_eq_toList, Memory.get_eq_toList, hn, List.getD_eq_getElem?_getD,
      List.getD_eq_getElem?_getD, List.getElem?_append]
    split
    · rfl
    · rw [List.getElem?_eq_none (by omega : m.memory.toList.length ≤ a), List.getElem?_replicate]
      split <;> rfl
  unfold Machine.tape
  rw [hget, h.pc, h.relativeBase]

theorem move_of_stopped {m : Machine} (hs : m.status ≠ .running) :
    ∃ cause, m.move = .done (.error (.halted cause)) m := by
  unfold move
  cases hm : m.status with
  | running => exact absurd hm hs
  | halted => exact ⟨none, rfl⟩
  | faulted f => exact ⟨some f, rfl⟩

theorem move_of_running {m : Machine} (hr : m.status = .running) :
    ∃ n, (∃ f, m.tape.fetch = .error f ∧
        m.move = .done (.error (.ofFault f)) ({ m with memory := m.memory.grow n }.fail f)) ∨
      ∃ i action, m.tape.fetch = .ok (i, action) ∧
        m.move = { m with memory := m.memory.grow n }.moveOf (m.pc + i.opcode.width) action := by
  obtain ⟨extent, he⟩ := Access.Views.fetch m
  have hrun : m.fetch.run m.memory =
      Access.leave m.tape.fetch (m.memory.grow (extent m.memory.get)) := he m.memory
  refine ⟨extent m.memory.get, ?_⟩
  cases hf : m.tape.fetch with
  | error f =>
    refine .inl ⟨f, rfl, ?_⟩
    simp [move, hr, hrun, hf, Access.leave]
  | ok fetched =>
    obtain ⟨i, action⟩ := fetched
    refine .inr ⟨i, action, rfl, ?_⟩
    simp [move, hr, hrun, hf, Access.leave]

theorem moveOf_ne_error (m : Machine) (next : Int) (action : Action) (e : Error) (m' : Machine) :
    m.moveOf next action ≠ .done (.error e) m' := by
  intro h
  cases action <;> cases h

theorem move_failed {m m' : Machine} {e : Error} (h : m.move = .done (.error e) m') :
    m' = m ∧ m.status ≠ .running ∧ (∃ cause, e = .halted cause) ∨
      m.status = .running ∧ m.Kept m' ∧ ∃ f, e = .ofFault f ∧ m.tape.fetch = .error f := by
  by_cases hr : m.status = .running
  · obtain ⟨n, ⟨f, hf, hm⟩ | ⟨i, action, _, hm⟩⟩ := move_of_running hr
    · cases h.symm.trans hm
      exact .inr ⟨hr, (Kept.grow m n).fail f, f, rfl, hf⟩
    · exact absurd (hm.symm.trans h) (moveOf_ne_error _ _ _ _ _)
  · obtain ⟨cause, hm⟩ := move_of_stopped hr
    cases h.symm.trans hm
    exact .inl ⟨rfl, hr, cause, rfl⟩

theorem move_awaits {m w : Machine} {d : Nat} {next : Int} (h : m.move = .await w d next) :
    m.Kept w ∧ w.status = .running ∧ ∃ i, m.tape.fetch = .ok (i, .receive d) := by
  have hr := (move_eq_await.mp h).1
  obtain ⟨n, ⟨f, _, hm⟩ | ⟨i, action, hf, hm⟩⟩ := move_of_running hr
  · cases h.symm.trans hm
  · obtain ⟨rfl, rfl, _⟩ := moveOf_eq_await.mp (hm.symm.trans h)
    exact ⟨Kept.grow m n, hr, i, hf⟩

/-- An instruction fails without its host, or the host has no value for it, or one that fits no
cell. -/
theorem stepInstruction_failed {σ : Type} {host : Host σ} {m : Machine} {s : σ} {e : Error}
    (h : (m.stepInstruction host s).result = .error e) :
    (∃ m', m.move = .done (.error e) m' ∧ m.stepInstruction host s = ⟨.error e, m', s⟩) ∨
      ∃ w d next, m.move = .await w d next ∧
        m.stepInstruction host s = ⟨.error e, w, (host.take s).2⟩ ∧
        ((∃ refusal, (host.take s).1 = .error refusal ∧ e = refusal.toError) ∨
          ∃ value, (host.take s).1 = .ok value ∧ value.toCell = .error e) := by
  rw [stepInstruction_eq_meet] at h ⊢
  cases hm : m.move with
  | done result m' =>
    rw [hm] at h
    have hr : result = .error e := h
    subst hr
    exact .inl ⟨m', rfl, rfl⟩
  | await w d next =>
    rw [hm] at h
    refine .inr ⟨w, d, next, rfl, ?_⟩
    simp only [Move.meet, perform] at h ⊢
    generalize host.take s = taken at h ⊢
    obtain ⟨given, s'⟩ := taken
    cases given with
    | error refusal =>
      cases h
      exact ⟨rfl, .inl ⟨refusal, rfl, rfl⟩⟩
    | ok value =>
      simp only at h ⊢
      cases hv : value.toCell with
      | error e' =>
        simp only [hv] at h ⊢
        cases h
        exact ⟨rfl, .inr ⟨value, rfl, hv⟩⟩
      | ok v => simp [hv] at h

theorem ofFault_ne_notInteger (f : Fault) (value : Value) :
    Error.ofFault f ≠ .notInteger value := by
  unfold Error.ofFault
  split <;> exact nofun

theorem ofFault_ne_inputExhausted (f : Fault) (why : Exhaustion) :
    Error.ofFault f ≠ .inputExhausted why := by
  unfold Error.ofFault
  split <;> exact nofun

theorem ofFault_ne_halted (f : Fault) (cause : Option Fault) : Error.ofFault f ≠ .halted cause := by
  unfold Error.ofFault
  split <;> exact nofun

theorem take_of_failed {host : Host Queue} (hh : host = .absent Queue ∨ host = Queue.host)
    {q : Queue} {e : Error}
    (h : (∃ refusal, (host.take q).1 = .error refusal ∧ e = refusal.toError) ∨
      ∃ value, (host.take q).1 = .ok value ∧ value.toCell = .error e) :
    (∃ why, e = .inputExhausted why) ∧ (host.take q).2 = q ∨
      ∃ value, e = .notInteger value ∧ (∀ n, value ≠ .integer n) ∧
        q.pending = value :: (host.take q).2.pending := by
  rcases hh with rfl | rfl
  · rcases h with ⟨refusal, ht, rfl⟩ | ⟨value, ht, _⟩
    · cases ht
      exact .inl ⟨⟨_, rfl⟩, rfl⟩
    · cases ht
  · obtain ⟨pending⟩ := q
    cases pending with
    | nil =>
      rcases h with ⟨refusal, ht, rfl⟩ | ⟨value, ht, _⟩
      · cases ht
        exact .inl ⟨⟨_, rfl⟩, rfl⟩
      · cases ht
    | cons v rest =>
      rcases h with ⟨refusal, ht, _⟩ | ⟨value, ht, hv⟩
      · cases ht
      · cases ht
        refine .inr ⟨v, Value.toCell_error hv, ?_, rfl⟩
        rintro n rfl
        cases hv

theorem fetch_input_error {t : Tape} {i : Instruction} {f : Fault} (hi : t.instruction = .ok i)
    (ho : i.opcode = .input) (ht : t.target i .first = .error f) : t.fetch = .error f := by
  have ha : t.action i = .error f := by
    unfold Tape.action
    simp only [ho, ht]
    rfl
  unfold Tape.fetch
  rw [hi]
  change (t.action i >>= fun action => pure (i, action)) = .error f
  rw [ha]
  rfl

/-- What a failing instruction leaves of a machine and its queue. -/
structure FailsAtomically (m : Machine) (q : Queue) (e : Error) (o : Outcome Queue (Option Int)) :
    Prop where
  kept : m.Kept o.machine
  queue : (∀ value, e ≠ .notInteger value) → o.host = q
  refused : ∀ value, e = .notInteger value →
    (∀ n, value ≠ .integer n) ∧ q.pending = value :: o.host.pending
  badDestination : ∀ i f, m.tape.instruction = .ok i → i.opcode = .input →
    m.tape.target i .first = .error f → o.host = q
  retryable : (∃ why, e = .inputExhausted why) ∨ (∃ value, e = .notInteger value) →
    o.machine.status = m.status
  stopped : ∀ cause, e = .halted cause → m.status ≠ .running ∧ o.machine = m
  refusing : m.status ≠ .running → ∃ cause, e = .halted cause

theorem failsAtomically_of_move {m m' : Machine} {e : Error} (h : m.move = .done (.error e) m')
    (q : Queue) : m.FailsAtomically q e ⟨.error e, m', q⟩ := by
  rcases move_failed h with ⟨rfl, hs, cause, rfl⟩ | ⟨hr, hk, f, rfl, _⟩
  · exact {
      kept := .refl m'
      queue := fun _ => rfl
      refused := nofun
      badDestination := fun _ _ _ _ _ => rfl
      retryable := fun _ => rfl
      stopped := fun _ _ => ⟨hs, rfl⟩
      refusing := fun _ => ⟨cause, rfl⟩ }
  · have hvalue := ofFault_ne_notInteger f
    have hwhy := ofFault_ne_inputExhausted f
    have hcause := ofFault_ne_halted f
    exact {
      kept := hk
      queue := fun _ => rfl
      refused := fun value hv => absurd hv (hvalue value)
      badDestination := fun _ _ _ _ _ => rfl
      retryable := fun he => by
        rcases he with ⟨why, hw⟩ | ⟨value, hv⟩
        · exact absurd hw (hwhy why)
        · exact absurd hv (hvalue value)
      stopped := fun cause hc => absurd hc (hcause cause)
      refusing := fun hs => absurd hr hs }

theorem failsAtomically_of_await {host : Host Queue} {m w : Machine} {d : Nat} {next : Int}
    {q : Queue} {e : Error} (hh : host = .absent Queue ∨ host = Queue.host)
    (hm : m.move = .await w d next)
    (h : (∃ refusal, (host.take q).1 = .error refusal ∧ e = refusal.toError) ∨
      ∃ value, (host.take q).1 = .ok value ∧ value.toCell = .error e) :
    m.FailsAtomically q e ⟨.error e, w, (host.take q).2⟩ := by
  obtain ⟨hk, hw, i, hf⟩ := move_awaits hm
  have hr : m.status = .running := (move_eq_await.mp hm).1
  have hstatus : w.status = m.status := hw.trans hr.symm
  have hbad : ∀ j f, m.tape.instruction = .ok j → j.opcode = .input →
      m.tape.target j .first = .error f → (host.take q).2 = q := by
    intro j f hj hi ht
    cases (fetch_input_error hj hi ht).symm.trans hf
  rcases take_of_failed hh h with ⟨⟨why, rfl⟩, hq⟩ | ⟨value, rfl, hv, hq⟩
  · exact ⟨hk, fun _ => hq, nofun, hbad, fun _ => hstatus, nofun, fun hs => absurd hr hs⟩
  · refine ⟨hk, fun hne => absurd rfl (hne value), ?_, hbad, fun _ => hstatus, nofun,
      fun hs => absurd hr hs⟩
    intro value' he
    cases he
    exact ⟨hv, hq⟩

end Machine

end Intcode
