import Intcode.Proofs.Failure
import Intcode.Proofs.Record
import Intcode.Proofs.Reference

namespace Intcode

/-- The results of a number of attempts, and the machine and its queue after them. -/
structure Attempts where
  results : List (Except Error (Option Int)) := []
  machine : Machine
  queue : Queue

namespace Attempts

def another (a : Attempts) : Attempts :=
  let o := a.machine.stepInstruction Queue.host a.queue
  ⟨a.results ++ [o.result], o.machine, o.host⟩

def emissions (a : Attempts) : List Int := a.results.flatMap Machine.emissionOf

def completed (a : Attempts) : Nat := a.results.countP (·.isOk)

end Attempts

namespace Machine

/-- Tries so many instructions in a row, going on after one that fails. -/
def attempts (m : Machine) (q : Queue) : Nat → Attempts
  | 0 => { machine := m, queue := q }
  | n + 1 => (m.attempts q n).another

/-- The machines differ at most in how far they have grown their memory. -/
structure Alike (m m' : Machine) : Prop where
  tape : m'.tape = m.tape
  status : m'.status = m.status
  executed : m'.executed = m.executed
  emitted : m'.emitted = m.emitted

section

variable {σ : Type} {m m' : Machine}

theorem Alike.fail (h : m.Alike m') (f : Fault) : (m.fail f).Alike (m'.fail f) := by
  unfold Machine.fail
  split
  · exact ⟨h.tape, rfl, h.executed, h.emitted⟩
  · exact h

theorem Follows.alike {o o' : Outcome σ (Option Int)} {r : Except Error Tape.Completion × σ}
    (h : m.Alike m') (ho : m.Follows o r) (ho' : m'.Follows o' r) : o.machine.Alike o'.machine := by
  cases hr : r.1 with
  | ok c =>
    obtain ⟨ht, hs, hx, he⟩ := ho.completed c hr
    obtain ⟨ht', hs', hx', he'⟩ := ho'.completed c hr
    refine ⟨ht'.trans ht.symm, hs'.trans hs.symm, ?_, ?_⟩
    · rw [hx, hx', h.executed]
    · rw [he, he', h.emitted]
  | error e =>
    obtain ⟨ht, hx, he, hs⟩ := ho.failed e hr
    obtain ⟨ht', hx', he', hs'⟩ := ho'.failed e hr
    refine ⟨?_, hs'.trans hs.symm, ?_, ?_⟩
    · rw [ht, ht', h.tape]
    · rw [hx, hx', h.executed]
    · rw [he, he', h.emitted]

/-- Machines that are alike do the same. -/
theorem stepInstruction_alike (host : Host σ) (h : m.Alike m') (s : σ) :
    (m'.stepInstruction host s).result = (m.stepInstruction host s).result ∧
      (m'.stepInstruction host s).host = (m.stepInstruction host s).host ∧
      (m.stepInstruction host s).machine.Alike (m'.stepInstruction host s).machine := by
  cases hs : m.status with
  | halted => simp [stepInstruction, hs, h.status.trans hs, h]
  | faulted f => simp [stepInstruction, hs, h.status.trans hs, h]
  | running =>
    have hs' := h.status.trans hs
    rcases stepInstruction_on_tape host s hs with ⟨f, memory, hstep, ht, hout⟩ | ⟨ho, hne⟩
    · rcases stepInstruction_on_tape host s hs' with ⟨f', memory', hstep', ht', hout'⟩ | ⟨_, hne'⟩
      · rw [h.tape, hstep] at hstep'
        cases hstep'
        rw [hout, hout']
        have hgrown : { m with memory }.Alike { m' with memory := memory' } :=
          ⟨by rw [ht, ht', h.tape], h.status, h.executed, h.emitted⟩
        exact ⟨rfl, rfl, hgrown.fail f⟩
      · exact absurd (by rw [h.tape, hstep]) (hne' f)
    · rcases stepInstruction_on_tape host s hs' with ⟨f', _, hstep', _, _⟩ | ⟨ho', _⟩
      · rw [h.tape] at hstep'
        exact absurd (by rw [hstep']) (hne f')
      · rw [h.tape] at ho'
        exact ⟨ho'.result.trans ho.result.symm, ho'.host.trans ho.host.symm, ho.alike h ho'⟩

end

theorem failsAtomically_of_queue {m : Machine} {q : Queue} {e : Error}
    (h : (m.stepInstruction Queue.host q).result = .error e) :
    m.FailsAtomically q e (m.stepInstruction Queue.host q) := by
  rcases stepInstruction_failed h with ⟨m', hm, ho⟩ | ⟨w, d, next, hm, ho, htake⟩
  · rw [ho]
    exact failsAtomically_of_move hm q
  · rw [ho]
    exact failsAtomically_of_await (.inr rfl) hm htake

/-- An instruction that misses no value does not see the values behind those it has. -/
theorem stepInstruction_inject {m : Machine} {q : Queue} (more : List Value)
    (h : ∀ why, (m.stepInstruction Queue.host q).result ≠ .error (.inputExhausted why)) :
    m.stepInstruction Queue.host (q.inject more) =
      { m.stepInstruction Queue.host q with
        host := (m.stepInstruction Queue.host q).host.inject more } := by
  simp only [stepInstruction_eq_meet] at h ⊢
  cases hm : m.move with
  | done result m' => rfl
  | await w d next =>
    rw [hm] at h
    obtain ⟨pending⟩ := q
    cases pending with
    | nil => exact absurd rfl (h .emptyQueue)
    | cons v rest =>
      simp only [Move.meet, perform, Queue.host, Queue.pop, Queue.inject, List.cons_append]
      cases v.toCell <;> rfl

theorem attempts_executed (m : Machine) (q : Queue) (n : Nat) :
    (m.attempts q n).machine.executed = m.executed + (m.attempts q n).completed := by
  induction n with
  | zero => rfl
  | succ n ih =>
    simp only [attempts, Attempts.another, Attempts.completed, List.countP_append] at ih ⊢
    have hlast : ∀ r : Except Error (Option Int), [r].countP (·.isOk) = r.isOk.toNat := by
      intro r
      cases r <;> rfl
    rw [(stepInstruction_counts _ _ _).1, ih, Nat.add_assoc, hlast]

theorem attempts_emitted (m : Machine) (q : Queue) (n : Nat) :
    (m.attempts q n).machine.emitted = m.emitted + (m.attempts q n).emissions.length := by
  induction n with
  | zero => rfl
  | succ n ih =>
    simp only [attempts, Attempts.another, Attempts.emissions, List.flatMap_append,
      List.length_append] at ih ⊢
    rw [(stepInstruction_counts _ _ _).2, ih, Nat.add_assoc, List.flatMap_singleton]

theorem attempts_length (m : Machine) (q : Queue) (n : Nat) :
    (m.attempts q n).results.length = n := by
  induction n with
  | zero => rfl
  | succ n ih => simp [attempts, Attempts.another, ih]

theorem attempts_suffix (m : Machine) (q : Queue) (n : Nat) :
    (m.attempts q n).queue.pending <:+ q.pending := by
  have hkeeps : Queue.host.Keeps fun q' => q'.pending <:+ q.pending := by
    refine ⟨fun q' hq => ?_, fun _ _ _ hq => hq⟩
    obtain ⟨pending⟩ := q'
    cases pending with
    | nil => exact hq
    | cons v rest => exact (List.suffix_cons v rest).trans hq
  induction n with
  | zero => exact List.suffix_refl _
  | succ n ih => exact stepInstruction_keeps hkeeps _ ih

theorem attempts_inject {m : Machine} {q : Queue} {n : Nat} (more : List Value)
    (h : ∀ e, .error e ∈ (m.attempts q n).results → ∃ value, e = .notInteger value) :
    m.attempts (q.inject more) n =
      { m.attempts q n with queue := (m.attempts q n).queue.inject more } := by
  induction n with
  | zero => rfl
  | succ n ih =>
    simp only [attempts, Attempts.another, List.mem_append, List.mem_singleton] at h ⊢
    rw [ih fun e he => h e (.inl he)]
    have hmiss : ∀ why, ((m.attempts q n).machine.stepInstruction Queue.host
        (m.attempts q n).queue).result ≠ .error (.inputExhausted why) := by
      intro why hw
      obtain ⟨value, hv⟩ := h _ (.inr hw.symm)
      cases hv
    rw [stepInstruction_inject more hmiss]

theorem attempts_integer {m : Machine} {q : Queue} (hq : ∀ v ∈ q.pending, ∃ k, v = .integer k)
    (n : Nat) (value : Value) : .error (.notInteger value) ∉ (m.attempts q n).results := by
  induction n with
  | zero => simp [attempts]
  | succ n ih =>
    simp only [attempts, Attempts.another, List.mem_append, List.mem_singleton, not_or]
    refine ⟨ih, fun hr => ?_⟩
    obtain ⟨hv, hpending⟩ := (failsAtomically_of_queue hr.symm).refused value rfl
    have hmem : value ∈ q.pending := (attempts_suffix m q n).subset (by simp [hpending])
    obtain ⟨k, hk⟩ := hq value hmem
    exact hv k hk

end Machine

end Intcode
