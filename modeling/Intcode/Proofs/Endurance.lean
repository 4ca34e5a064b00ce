import Intcode.Proofs.Attempts
import Intcode.Proofs.Reading

namespace Intcode

namespace Monitor

/-- Only integers wait in the queue, as after any line. -/
def IntegersOnly (m : Monitor) : Prop := ∀ value ∈ m.queue.pending, ∃ n, value = .integer n

theorem IntegersOnly.inject {m : Monitor} (h : m.IntegersOnly) (numbers : List Int) :
    IntegersOnly { m with queue := m.queue.inject (numbers.map .integer) } := by
  intro value hv
  rcases List.mem_append.mp hv with hv | hv
  · exact h value hv
  · obtain ⟨n, _, rfl⟩ := List.mem_map.mp hv
    exact ⟨n, rfl⟩

theorem IntegersOnly.attempt {m : Monitor} (h : m.IntegersOnly) : m.attempt.IntegersOnly := by
  have hkeeps : Queue.host.Keeps fun q => ∀ value ∈ q.pending, ∃ n, value = .integer n := by
    refine ⟨fun q hq => ?_, fun _ _ _ hq => hq⟩
    obtain ⟨pending⟩ := q
    cases pending with
    | nil => exact hq
    | cons v rest => exact fun value hv => hq value (List.mem_cons_of_mem v hv)
  exact Machine.stepInstruction_keeps hkeeps m.machine h

theorem IntegersOnly.not_refused {m : Monitor} (h : m.IntegersOnly) (value : Value) :
    m.stepInstruction.1 ≠ .error (.notInteger value) := by
  intro hr
  obtain ⟨hv, hpending⟩ := (Machine.failsAtomically_of_queue hr).refused value rfl
  have hmem : value ∈ m.queue.pending := by
    rw [hpending]
    exact List.mem_cons_self
  obtain ⟨n, hn⟩ := h value hmem
  exact hv n hn

end Monitor

namespace Session

open Monitor (IntegersOnly)

variable {B : Breakdown → Prop}

theorem attempting_integersOnly : Attempting IntegersOnly B :=
  ⟨fun _ hm => hm.attempt, fun _ value hm hr => absurd hr (hm.not_refused value)⟩

/-- A command leaves a queue of integers, and only a listing breaks down. -/
theorem keeps_integersOnly {command : Command} (hi : command.lists = true → ∀ e, B (.index e)) :
    Keeps IntegersOnly B (carryOut command) := by
  by_cases hc : command.inspects = true
  · exact .carryOut_of_inspects (fun m breakpoints hm => hm) hi hc
  · cases command with
    | nothing | unknown line => exact absurd rfl hc
    | call verb argument =>
      cases verb with
      | bp | bpd | disasm | dump | endOfInput | help | output | quit | regs | status =>
        exact absurd rfl hc
      | input =>
        exact .bind (.inputCommand (fun m numbers hm => hm.inject numbers) argument) fun _ =>
          .pure _
      | run | continue_ =>
        exact .bind (.runCommand attempting_integersOnly argument) fun _ => .pure _
      | setmem => exact .bind (.setCommand (fun m machine hm => hm) argument) fun _ => .pure _
      | step => exact .bind (.stepCommand attempting_integersOnly argument) fun _ => .pure _

end Session

end Intcode
