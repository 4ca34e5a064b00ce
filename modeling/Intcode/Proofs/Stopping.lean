import Intcode.Proofs.Attempts
import Intcode.Proofs.Decimal
import Intcode.Proofs.Reading
import Mathlib.Logic.Function.Iterate
import Mathlib.Order.Nat

namespace Intcode

def Argument.count (fallback : Int) (argument : String) : Except Trouble Int :=
  if Session.isBlankText argument then .ok fallback else number argument

/-- How many instructions a run may execute, if its argument says so. -/
def Command.runLimit? : Command → Option Int
  | .call .run argument | .call .continue_ argument =>
    (Argument.count Session.defaultSteps argument).toOption
  | _ => none

def Command.stepLimit? : Command → Option Int
  | .call .step argument => (Argument.count 1 argument).toOption
  | _ => none

namespace Monitor

/-- The monitor after so many calls of its machine on its queue. -/
def attempted (m : Monitor) (n : Nat) : Monitor := attempt^[n] m

/-- The next call completes an instruction and leaves the machine running. -/
def goesOn (m : Monitor) : Bool := m.stepInstruction.1.isOk && m.attempt.machine.isRunning

/-- The last of so many calls fails or leaves the machine halted. -/
def ends (m : Monitor) : Nat → Bool
  | 0 => false
  | n + 1 => !(m.attempted n).goesOn

/-- So many calls succeed and come to a breakpoint. -/
def Breaks (m : Monitor) (n : Nat) : Prop :=
  (∀ i < n, (m.attempted i).stepInstruction.1.isOk = true) ∧
    (m.attempted n).machine.pc ∈ m.breakpoints

/-- A reason to stop after so many calls: the limit, a breakpoint after no fewer than `least` calls,
or the last call itself. -/
def Stops (m : Monitor) (least limit n : Nat) : Prop :=
  n = limit ∨ (least ≤ n ∧ m.Breaks n) ∨ m.ends n = true

def emitted (m : Monitor) (n : Nat) : List Int :=
  (List.range n).flatMap fun i => Machine.emissionOf (m.attempted i).stepInstruction.1

def told : List Int → String
  | [] => ""
  | v :: rest => s!"  OUT {v}" ++ "\n" ++ told rest

def written (n : Int) : Except Trouble String := (Numeral.write n).mapError .numeral

/-- What is said of the next call when it does not go on. -/
def farewell (m : Monitor) : Except Trouble String :=
  match m.stepInstruction.1 with
  | .ok _ => .ok s!"Halted after {m.attempt.machine.executed} instructions."
  | .error (.inputExhausted _) => (written m.attempt.machine.pc).map fun pc =>
      s!"Waiting for input at {pc}. " ++ "Use 'input <n>' then 'run' to continue."
  | .error (.halted cause) => .ok (Error.halted cause).message
  | .error (.fault f) => .ok s!"Fault: {f.message}"
  | .error e => .error (.machine e)

/-- What is said where so many calls stop a run before its limit. -/
def interruption (m : Monitor) (limit n : Nat) : Option (Except Trouble String) :=
  if m.ends n then some (m.attempted (n - 1)).farewell
  else if n = limit then none
  else some ((written (m.attempted n).machine.pc).map fun pc => s!"Breakpoint hit at {pc}")

def reason (m : Monitor) (limit n : Nat) : Except Trouble String :=
  (m.interruption limit n).getD ((written limit).map fun count => s!"Stopped after {count} steps.")

theorem told_append (vs ws : List Int) : told (vs ++ ws) = told vs ++ told ws := by
  induction vs with
  | nil => simp [told]
  | cons v vs ih =>
    simp only [List.cons_append, told, ih, String.append_assoc]

section

variable {m : Monitor} {n : Nat}

theorem attempted_succ (m : Monitor) (n : Nat) : m.attempted (n + 1) = m.attempt.attempted n := rfl

theorem attempted_last (m : Monitor) (n : Nat) : m.attempted (n + 1) = (m.attempted n).attempt :=
  Function.iterate_succ_apply' attempt n m

theorem attempted_breakpoints (m : Monitor) (n : Nat) :
    (m.attempted n).breakpoints = m.breakpoints := by
  induction n with
  | zero => rfl
  | succ n ih => rw [attempted_last]; exact ih

theorem emitted_succ (m : Monitor) (n : Nat) :
    m.emitted (n + 1) = Machine.emissionOf m.stepInstruction.1 ++ m.attempt.emitted n := by
  unfold emitted
  rw [List.range_succ_eq_map, List.flatMap_cons, List.flatMap_map]
  rfl

theorem emitted_last (m : Monitor) (n : Nat) :
    m.emitted (n + 1) = m.emitted n ++ Machine.emissionOf (m.attempted n).stepInstruction.1 := by
  simp [emitted, List.range_succ]

theorem ends_succ (h : m.goesOn = true) (n : Nat) : m.ends (n + 1) = m.attempt.ends n := by
  cases n with
  | zero => simp [ends, attempted, h]
  | succ n => rfl

theorem isOk_of_goesOn (h : m.goesOn = true) : m.stepInstruction.1.isOk = true :=
  (Bool.and_eq_true_iff.mp h).1

theorem breaks_succ (h : m.goesOn = true) (n : Nat) : m.Breaks (n + 1) ↔ m.attempt.Breaks n := by
  have hok := isOk_of_goesOn h
  constructor
  · rintro ⟨hcalls, hpc⟩
    exact ⟨fun i hi => hcalls (i + 1) (by omega), hpc⟩
  · rintro ⟨hcalls, hpc⟩
    refine ⟨fun i hi => ?_, hpc⟩
    cases i with
    | zero => exact hok
    | succ i => exact hcalls i (by omega)

theorem interruption_succ (h : m.goesOn = true) (limit n : Nat) :
    m.interruption (limit + 1) (n + 1) = m.attempt.interruption limit n := by
  unfold interruption
  rw [ends_succ h, attempted_succ]
  cases n with
  | zero => simp only [ends, Bool.false_eq_true, if_false, Nat.add_right_cancel_iff]
  | succ n => simp only [Nat.add_right_cancel_iff, Nat.add_sub_cancel, attempted_succ]

theorem exists_isLeast_stops (m : Monitor) (least limit : Nat) :
    ∃ k, IsLeast {j | m.Stops least limit j} k := by
  classical
  have hlimit : ∃ j, m.Stops least limit j := ⟨limit, .inl rfl⟩
  exact ⟨_, Nat.isLeast_find hlimit⟩

theorem not_stops_zero {least limit : Nat} (hb : ¬ (least = 0 ∧ m.machine.pc ∈ m.breakpoints)) :
    ¬ m.Stops least (limit + 1) 0 := by
  rintro (hlimit | ⟨hleast, _, hpc⟩ | hends)
  · cases hlimit
  · exact hb ⟨Nat.le_zero.mp hleast, hpc⟩
  · cases hends

/-- After a call that goes on, a run goes on as one that starts behind that call. -/
theorem isLeast_behind {least limit k : Nat} (h : m.goesOn = true) (hl : least ≤ 1)
    (hb : ¬ (least = 0 ∧ m.machine.pc ∈ m.breakpoints))
    (hk : IsLeast {j | m.Stops least (limit + 1) j} k) :
    ∃ n, k = n + 1 ∧ IsLeast {j | m.attempt.Stops 0 limit j} n := by
  have hiff (j : Nat) : m.Stops least (limit + 1) (j + 1) ↔ m.attempt.Stops 0 limit j := by
    have hleast : least ≤ j + 1 := by omega
    simp [Stops, breaks_succ h, ends_succ h, hleast]
  cases k with
  | zero => exact absurd hk.1 (not_stops_zero hb)
  | succ n =>
    refine ⟨n, rfl, (hiff n).mp hk.1, fun j hj => ?_⟩
    exact Nat.le_of_succ_le_succ (hk.2 ((hiff j).mpr hj))

theorem isLeast_last {least limit k : Nat} (h : m.goesOn = false)
    (hb : ¬ (least = 0 ∧ m.machine.pc ∈ m.breakpoints))
    (hk : IsLeast {j | m.Stops least (limit + 1) j} k) : k = 1 := by
  have hone : m.Stops least (limit + 1) 1 := .inr (.inr (by simp [ends, attempted, h]))
  have hle : k ≤ 1 := hk.2 hone
  have hne : k ≠ 0 := fun hzero => not_stops_zero hb (hzero ▸ hk.1)
  omega

end

end Monitor

def Console.saying (c : Console) (line : String) : Console :=
  { c with printed := c.printed ++ (line ++ "\n") }

namespace Session

open Monitor (told)

variable {c : Console}

def finish {α : Type} (c : Console) (x : α) : Except Trouble String →
    EStateM.Result Trouble Console α
  | .ok line => .ok x (c.saying line)
  | .error t => .error t c

def tried (c : Console) : Console :=
  ⟨c.monitor.attempt, c.printed ++ told (Machine.emissionOf c.monitor.stepInstruction.1)⟩

/-- To execute is to make a call and to say why it does not go on. -/
theorem run_execute
    (h : ∀ v ∈ Machine.emissionOf c.monitor.stepInstruction.1, Numeral.isWritable v = true) :
    execute.run c =
      if c.monitor.goesOn then .ok true (tried c)
      else finish (tried c) false c.monitor.farewell := by
  rcases hs : c.monitor.stepInstruction with ⟨result, after⟩
  have hattempt := Monitor.attempt_eq hs
  have hsilent : { after with outputs := after.outputs ++ [] } = after := by
    rw [List.append_nil]
  have hnote : (update fun _ => after).run c = .ok () { c with monitor := after } := rfl
  rw [hs] at h
  unfold execute
  rw [run_bind_ok (Reads.monitor c), hs]
  simp only
  rw [run_bind_ok hnote]
  cases result with
  | error e =>
    have hgoes : c.monitor.goesOn = false := by
      simp [Monitor.goesOn, hs, Except.isOk, Except.toBool]
    simp only [hgoes, Bool.false_eq_true, if_false, tried, Monitor.farewell, hs, hattempt,
      Machine.emissionOf, hsilent, told, String.append_empty]
    cases e with
    | inputExhausted why =>
      simp only [number, Monitor.written]
      cases Numeral.write after.machine.pc <;> rfl
    | halted | fault | notInteger | numeral | rejected | noPhases | unsupported => rfl
  | ok output =>
    have hgoes : c.monitor.goesOn = after.machine.isRunning := by
      simp [Monitor.goesOn, hs, Except.isOk, Except.toBool, hattempt]
    have hhalted : after.machine.isHalted = !after.machine.isRunning := rfl
    simp only [hgoes, tried, Monitor.farewell, hs, hattempt, hhalted, Machine.emissionOf]
    cases output with
    | none =>
      simp only [Option.toList_none, told, hsilent, String.append_empty]
      cases after.machine.isRunning <;> rfl
    | some v =>
      have hv : Numeral.write v = .ok (toString v) := if_pos (h v List.mem_cons_self)
      simp only [Option.toList_some, told, number, hv, String.append_empty]
      cases after.machine.isRunning <;> rfl

def triedUpTo (c : Console) (n : Nat) : Console :=
  ⟨c.monitor.attempted n, c.printed ++ told (c.monitor.emitted n)⟩

theorem triedUpTo_succ (c : Console) (n : Nat) : triedUpTo c (n + 1) = triedUpTo (tried c) n := by
  unfold triedUpTo tried
  rw [Monitor.emitted_succ, Monitor.told_append, ← String.append_assoc, Monitor.attempted_succ]

def halt (c : Console) : Option (Except Trouble String) → EStateM.Result Trouble Console Bool
  | none => .ok true c
  | some said => finish c false said

theorem emitted_first {n : Nat} (h : ∀ v ∈ c.monitor.emitted (n + 1), Numeral.isWritable v = true) :
    (∀ v ∈ Machine.emissionOf c.monitor.stepInstruction.1, Numeral.isWritable v = true) ∧
      ∀ v ∈ (tried c).monitor.emitted n, Numeral.isWritable v = true := by
  rw [Monitor.emitted_succ] at h
  exact List.forall_mem_append.mp h

theorem triedUpTo_zero (c : Console) : triedUpTo c 0 = c := by
  simp [triedUpTo, Monitor.attempted, Monitor.emitted, told]

/-- A run that may go on halts at a breakpoint, unless it starts there, and makes a call anywhere
else. -/
theorem run_runUpTo_succ (limit : Nat) (first : Bool) (c : Console) :
    (runUpTo (limit + 1) first).run c =
      if first.toNat = 0 ∧ c.monitor.machine.pc ∈ c.monitor.breakpoints then
        finish c false
          ((Monitor.written c.monitor.machine.pc).map fun pc => s!"Breakpoint hit at {pc}")
      else
        (execute >>= fun goesOn => if goesOn then runUpTo limit false else pure false).run c := by
  have hcond : (!first && c.monitor.breakpoints.contains c.monitor.machine.pc) = true ↔
      first.toNat = 0 ∧ c.monitor.machine.pc ∈ c.monitor.breakpoints := by
    cases first <;> simp
  rw [runUpTo, run_bind_ok (Reads.monitor c)]
  split
  next h =>
    rw [if_pos (hcond.mp h)]
    unfold number Monitor.written
    cases Numeral.write c.monitor.machine.pc <;> rfl
  next h => rw [if_neg (mt hcond.mpr h)]

/-- A run makes as many calls as there are up to the first reason to stop. A breakpoint is one from
the start for the rest of a run, but not for a run that starts there. -/
theorem run_runUpTo {limit k : Nat} {first : Bool} {c : Console}
    (hk : IsLeast {j | c.monitor.Stops first.toNat limit j} k)
    (h : ∀ v ∈ c.monitor.emitted k, Numeral.isWritable v = true) :
    (runUpTo limit first).run c = halt (triedUpTo c k) (c.monitor.interruption limit k) := by
  -- The limit counts the calls that are left: behind a call that goes on, there is one less.
  induction limit generalizing k first c with
  | zero =>
    have hzero : k = 0 := Nat.le_zero.mp (hk.2 (.inl rfl))
    rw [hzero, triedUpTo_zero]
    rfl
  | succ limit ih =>
    have hrun := run_runUpTo_succ limit first c
    by_cases hb : first.toNat = 0 ∧ c.monitor.machine.pc ∈ c.monitor.breakpoints
    · have hzero : k = 0 := Nat.le_zero.mp (hk.2 (.inr (.inl ⟨hb.1.le, nofun, hb.2⟩)))
      rw [hrun, if_pos hb, hzero, triedUpTo_zero]
      rfl
    · rw [if_neg hb] at hrun
      cases hg : c.monitor.goesOn with
      | false =>
        obtain rfl := Monitor.isLeast_last hg hb hk
        have hsaid : c.monitor.interruption (limit + 1) 1 = some c.monitor.farewell := by
          simp [Monitor.interruption, Monitor.ends, Monitor.attempted, hg]
        have hexecute := run_execute (emitted_first h).1
        rw [if_neg (by simp [hg])] at hexecute
        rw [hrun, hsaid, triedUpTo_succ, triedUpTo_zero]
        cases hf : c.monitor.farewell with
        | ok line =>
          rw [hf] at hexecute
          exact run_bind_ok hexecute
        | error t =>
          rw [hf] at hexecute
          exact run_bind_error hexecute
      | true =>
        obtain ⟨n, rfl, hn⟩ := Monitor.isLeast_behind hg first.toNat_le hb hk
        have hexecute := run_execute (emitted_first h).1
        rw [if_pos hg] at hexecute
        rw [hrun, run_bind_ok hexecute, triedUpTo_succ, Monitor.interruption_succ hg]
        exact ih hn (emitted_first h).2

theorem run_runCommand {argument : String} {limit k : Nat} {c : Console}
    (hn : Argument.count defaultSteps argument = .ok (limit : Int))
    (hk : IsLeast {j | c.monitor.Stops 1 limit j} k)
    (h : ∀ v ∈ c.monitor.emitted k, Numeral.isWritable v = true) :
    (runCommand argument).run c = finish (triedUpTo c k) () (c.monitor.reason limit k) := by
  have hfirst : IsLeast {j | c.monitor.Stops true.toNat limit j} k := hk
  have hrun := run_runUpTo hfirst h
  have hread := Reads.countOr defaultSteps argument c
  have hcount : (countOr defaultSteps argument).run c = .ok (limit : Int) c := by
    rw [Argument.count] at hn
    rw [hn] at hread
    exact hread
  unfold runCommand Monitor.reason
  rw [run_bind_ok hcount]
  simp only [Int.toNat_natCast]
  cases hi : c.monitor.interruption limit k with
  | none =>
    rw [hi] at hrun
    rw [run_bind_ok hrun]
    simp only [if_true, Option.getD_none, Monitor.written, number]
    cases Numeral.write limit <;> rfl
  | some said =>
    rw [hi] at hrun
    cases said with
    | ok line => exact run_bind_ok hrun
    | error t => exact run_bind_error hrun

end Session

namespace Monitor

open Session

def unbroken (m : Monitor) : Monitor := { m with breakpoints := [] }

/-- The instruction at the pointer can be shown. -/
def Displays (m : Monitor) : Prop :=
  Numeral.isWritable m.machine.pc = true ∧
    ∃ text width, Listing.entry m.machine.memory m.machine.pc = .ok (text, width)

section

variable {m : Monitor} {limit n : Nat}

theorem attempted_unbroken (m : Monitor) (n : Nat) :
    m.unbroken.attempted n = (m.attempted n).unbroken := by
  induction n with
  | zero => rfl
  | succ n ih =>
    rw [attempted_last, attempted_last, ih]
    rfl

theorem emitted_unbroken (m : Monitor) (n : Nat) : m.unbroken.emitted n = m.emitted n := by
  simp only [emitted, attempted_unbroken]
  rfl

theorem stops_unbroken (m : Monitor) (least limit n : Nat) :
    m.unbroken.Stops least limit n ↔ m.unbroken.Stops 1 limit n := by
  have hnone : ¬ m.unbroken.Breaks n := by
    rintro ⟨_, hpc⟩
    cases hpc
  simp [Stops, hnone]

end

end Monitor

namespace Session

open Monitor (told)

variable {c : Console}

/-- What is shown before a call changes nothing that the call depends on. -/
theorem run_stepUpTo_succ (limit : Nat) (h : c.monitor.Displays) : ∃ line,
    (stepUpTo (limit + 1)).run c =
      (execute >>= fun goesOn => if goesOn then stepUpTo limit else pure ()).run
        (c.saying line) := by
  obtain ⟨hpc, text, width, hentry⟩ := h
  have hread : (ofNumeral (Listing.entry c.monitor.machine.memory c.monitor.machine.pc)).run c =
      .ok (text, width) c := by
    rw [run_ofNumeral, hentry]
  have hlabel : (ofNumeral (Numeral.writeColumn 6 c.monitor.machine.pc)).run c =
      .ok (Text.alignRight 6 (toString c.monitor.machine.pc)) c := by
    rw [run_ofNumeral, Numeral.writeColumn, Numeral.write, if_pos hpc]
    rfl
  refine ⟨s!"  {Text.alignRight 6 (toString c.monitor.machine.pc)}: {text}", ?_⟩
  rw [stepUpTo, run_bind_ok (Reads.monitor c), run_bind_ok hread, run_bind_ok hlabel]
  rfl

/-- To step through a program is to run it without breakpoints, as long as it can be shown. -/
theorem leaves_stepUpTo {limit k : Nat} {c : Console}
    (hk : IsLeast {j | c.monitor.unbroken.Stops 0 limit j} k)
    (h : ∀ v ∈ c.monitor.emitted k, Numeral.isWritable v = true)
    (hd : ∀ i < k, (c.monitor.attempted i).Displays) :
    (stepUpTo limit).leaves c = c.monitor.attempted k := by
  induction limit generalizing k c with
  | zero =>
    have hzero : k = 0 := Nat.le_zero.mp (hk.2 (.inl rfl))
    rw [hzero]
    rfl
  | succ limit ih =>
    have hb : ¬ (0 = 0 ∧ c.monitor.unbroken.machine.pc ∈ c.monitor.unbroken.breakpoints) :=
      fun h => absurd h.2 List.not_mem_nil
    have hpos : 0 < k := Nat.pos_of_ne_zero fun hzero => Monitor.not_stops_zero hb (hzero ▸ hk.1)
    obtain ⟨line, hrun⟩ := run_stepUpTo_succ limit (hd 0 hpos)
    cases hg : c.monitor.goesOn with
    | false =>
      obtain rfl := Monitor.isLeast_last (m := c.monitor.unbroken) hg hb hk
      have hexecute := run_execute (c := c.saying line) (emitted_first h).1
      rw [if_neg (by simp [Console.saying, hg])] at hexecute
      rw [leaves, hrun]
      cases hf : (c.saying line).monitor.farewell with
      | ok said =>
        rw [hf] at hexecute
        rw [run_bind_ok hexecute]
        rfl
      | error t =>
        rw [hf] at hexecute
        rw [run_bind_error hexecute]
        rfl
    | true =>
      obtain ⟨n, rfl, hn⟩ :=
        Monitor.isLeast_behind (m := c.monitor.unbroken) hg (Nat.zero_le 1) hb hk
      have hexecute := run_execute (c := c.saying line) (emitted_first h).1
      rw [if_pos (by simp [Console.saying, hg])] at hexecute
      rw [leaves, hrun, run_bind_ok hexecute]
      exact ih (c := tried (c.saying line)) hn (emitted_first h).2 fun i hi => hd (i + 1) (by omega)

end Session

namespace Monitor

open Session

/-- So many calls are attempts of the machine on the monitor's queue, and the outputs are what they
emit. -/
structure Calls (m : Monitor) (n : Nat) : Prop where
  machine : (m.attempted n).machine = (m.machine.attempts m.queue n).machine
  queue : (m.attempted n).queue = (m.machine.attempts m.queue n).queue
  emitted : m.emitted n = (m.machine.attempts m.queue n).emissions
  outputs : (m.attempted n).outputs = m.outputs ++ (m.machine.attempts m.queue n).emissions
  breakpoints : (m.attempted n).breakpoints = m.breakpoints

theorem calls (m : Monitor) (n : Nat) : m.Calls n := by
  induction n with
  | zero => exact ⟨rfl, rfl, rfl, (List.append_nil _).symm, rfl⟩
  | succ n ih =>
    have hcall : (m.attempted n).stepInstruction.1 =
        ((m.machine.attempts m.queue n).machine.stepInstruction Queue.host
          (m.machine.attempts m.queue n).queue).result := by
      rw [← ih.machine, ← ih.queue]
      rfl
    have hemissions : (m.machine.attempts m.queue (n + 1)).emissions =
        (m.machine.attempts m.queue n).emissions ++
          Machine.emissionOf (m.attempted n).stepInstruction.1 := by
      rw [hcall]
      simp [Machine.attempts, Attempts.another, Attempts.emissions]
    constructor
    · rw [attempted_last, Machine.attempts, Attempts.another, ← ih.machine, ← ih.queue]
      rfl
    · rw [attempted_last, Machine.attempts, Attempts.another, ← ih.machine, ← ih.queue]
      rfl
    · rw [emitted_last, ih.emitted, hemissions]
    · rw [attempted_last, attempt, ih.outputs, hemissions, List.append_assoc]
    · exact attempted_breakpoints m (n + 1)

def concluded (c : Console) : Except Trouble String → Except Breakdown Bool × Console
  | .ok line => (.ok false, c.saying line)
  | .error t =>
    match t.breakdown? with
    | some b => (.error b, c)
    | none => (.ok false, c.saying ("Error: " ++ t.message))

section

variable {line : String} {limit k : Nat} {c : Console}

theorem runLimit_eq (h : (Command.ofLine line).runLimit? = some (limit : Int)) : ∃ argument,
    carryOut (Command.ofLine line) = (runCommand argument >>= fun _ => pure false) ∧
      Argument.count defaultSteps argument = .ok (limit : Int) := by
  generalize Command.ofLine line = command at h
  cases command with
  | nothing | unknown => cases h
  | call verb argument =>
    cases verb with
    | run | continue_ =>
      refine ⟨argument, rfl, ?_⟩
      simp only [Command.runLimit?] at h
      cases hcount : Argument.count defaultSteps argument with
      | error t =>
        rw [hcount] at h
        cases h
      | ok n =>
        rw [hcount] at h
        rw [Option.some.inj h]
    | bp | bpd | disasm | dump | endOfInput | help | input | output | quit | regs | setmem | status
    | step => cases h

theorem answer_run (hline : (Command.ofLine line).runLimit? = some (limit : Int))
    (hk : IsLeast {j | c.monitor.Stops 1 limit j} k)
    (h : ∀ v ∈ c.monitor.emitted k, Numeral.IsShort v) :
    answer line c = concluded (triedUpTo c k) (c.monitor.reason limit k) := by
  obtain ⟨argument, hcommand, hcount⟩ := runLimit_eq hline
  have hrun := run_runCommand hcount hk (Numeral.isWritable_of_isShort h)
  unfold answer
  rw [hcommand]
  cases hr : c.monitor.reason limit k with
  | ok said =>
    rw [hr] at hrun
    rw [run_bind_ok hrun]
    rfl
  | error t =>
    rw [hr] at hrun
    rw [run_bind_error hrun]
    simp only [concluded]
    cases t.breakdown? with
    | some b => rfl
    | none => simp only [Console.saying, String.append_assoc]

theorem concluded_monitor (c : Console) (said : Except Trouble String) :
    (concluded c said).2.monitor = c.monitor := by
  cases said with
  | ok line => rfl
  | error t =>
    simp only [concluded]
    cases t.breakdown? <;> rfl

theorem answer_step (hline : (Command.ofLine line).stepLimit? = some (limit : Int))
    (hk : IsLeast {j | c.monitor.unbroken.Stops 1 limit j} k)
    (h : ∀ v ∈ c.monitor.emitted k, Numeral.IsShort v)
    (hd : ∀ i < k, (c.monitor.attempted i).Displays) :
    (answer line c).2.monitor = c.monitor.attempted k := by
  have hzero : IsLeast {j | c.monitor.unbroken.Stops 0 limit j} k := by
    simpa only [stops_unbroken _ 0] using hk
  have hleaves := leaves_stepUpTo hzero (Numeral.isWritable_of_isShort h) hd
  rw [answer_monitor]
  generalize Command.ofLine line = command at hline
  cases command with
  | nothing | unknown => cases hline
  | call verb argument =>
    cases verb with
    | step =>
      have hcount : (countOr 1 argument).run c = .ok (limit : Int) c := by
        have hread := Reads.countOr 1 argument c
        simp only [Command.stepLimit?] at hline
        cases hn : Argument.count 1 argument with
        | error t =>
          rw [hn] at hline
          cases hline
        | ok n =>
          rw [hn] at hline
          rw [Argument.count] at hn
          rw [hn, Option.some.inj hline] at hread
          exact hread
      have hcommand : (carryOut (.call .step argument)).leaves c =
          (stepCommand argument).leaves c :=
        leaves_bind_pure _ _ _
      rw [hcommand, stepCommand, leaves_bind_ok hcount, Int.toNat_natCast]
      exact hleaves
    | bp | bpd | continue_ | disasm | dump | endOfInput | help | input | output | quit | regs | run
    | setmem | status => cases hline

theorem not_breakpoint_of_lt (hk : IsLeast {j | c.monitor.Stops 1 limit j} k) {i : Nat} (hi : 0 < i)
    (hlt : i < k) : (c.monitor.attempted i).machine.pc ∉ c.monitor.breakpoints := by
  intro hpc
  have hgoes (j : Nat) (hj : j < i) : (c.monitor.attempted j).goesOn = true := by
    by_contra hends
    have hle := hk.2 (.inr (.inr (by simpa [ends] using hends)) : c.monitor.Stops 1 limit (j + 1))
    omega
  have hbreaks : c.monitor.Breaks i := ⟨fun j hj => isOk_of_goesOn (hgoes j hj), hpc⟩
  have hle := hk.2 (.inr (.inl ⟨hi, hbreaks⟩))
  omega

theorem pos_of_isLeast (hk : IsLeast {j | c.monitor.Stops 1 limit j} k) (hl : 0 < limit) :
    0 < k := by
  obtain ⟨more, rfl⟩ : ∃ more, limit = more + 1 := ⟨limit - 1, by omega⟩
  refine Nat.pos_of_ne_zero fun hzero => ?_
  exact not_stops_zero (fun h => absurd h.1 Nat.one_ne_zero) (hzero ▸ hk.1)

end

/-- A run makes as many calls as there are up to the first reason to stop, and says that reason, or
that it names a number which is too long. So only its first call is made at a breakpoint. To step
through a program is to run it without breakpoints. -/
theorem run_stops_first (c : Console) :
    (∀ k, c.monitor.Calls k) ∧
    (∀ (line : String) (limit : Nat), (Command.ofLine line).runLimit? = some (limit : Int) →
      ∃ k, IsLeast {j | c.monitor.Stops 1 limit j} k ∧
        (∀ i < k, 0 < i → (c.monitor.attempted i).machine.pc ∉ c.monitor.breakpoints) ∧
        (0 < limit → 0 < k) ∧
        ((∀ v ∈ c.monitor.emitted k, Numeral.IsShort v) →
          answer line c = concluded (triedUpTo c k) (c.monitor.reason limit k))) ∧
    ∀ (line : String) (limit : Nat), (Command.ofLine line).stepLimit? = some (limit : Int) →
      ∃ k, IsLeast {j | c.monitor.unbroken.Stops 1 limit j} k ∧
        ((∀ v ∈ c.monitor.emitted k, Numeral.IsShort v) →
          (∀ i < k, (c.monitor.attempted i).Displays) →
          (answer line c).2.monitor = c.monitor.attempted k ∧
          ∀ run, (Command.ofLine run).runLimit? = some (limit : Int) →
            (answer run { c with monitor := c.monitor.unbroken }).2.monitor =
              (c.monitor.attempted k).unbroken) := by
  refine ⟨calls c.monitor, fun line limit hline => ?_, fun line limit hline => ?_⟩
  · obtain ⟨k, hk⟩ := exists_isLeast_stops c.monitor 1 limit
    exact ⟨k, hk,
      fun i hlt hi => not_breakpoint_of_lt hk hi hlt, pos_of_isLeast hk, answer_run hline hk⟩
  · obtain ⟨k, hk⟩ := exists_isLeast_stops c.monitor.unbroken 1 limit
    refine ⟨k, hk, fun h hd => ⟨answer_step hline hk h hd, fun run hrun => ?_⟩⟩
    have hshort : ∀ v ∈ c.monitor.unbroken.emitted k, Numeral.IsShort v := by
      rwa [emitted_unbroken]
    rw [answer_run (c := { c with monitor := c.monitor.unbroken }) hrun hk hshort,
      concluded_monitor]
    exact attempted_unbroken c.monitor k

/-- A run from one breakpoint to the next, and three steps past both of them. -/
theorem run_stops_first_between_breakpoints :
    let c : Console :=
      { monitor := { machine := .ofCells [104, 1, 104, 2, 99], breakpoints := [0, 2] } }
    (answer "run 3" c).2.printed = "  OUT 1\nBreakpoint hit at 2\n" ∧
      (answer "run 3" c).2.monitor = c.monitor.attempted 1 ∧
      (answer "step 3" c).2.monitor = c.monitor.attempted 3 ∧
      (answer "run 3" { c with monitor := c.monitor.unbroken }).2.monitor =
        (c.monitor.attempted 3).unbroken := by
  intro c
  obtain ⟨-, hrun, hstep⟩ := run_stops_first c
  have hshort (values : List Int) (h : values = [1] ∨ values = [1, 2]) :
      ∀ v ∈ values, Numeral.IsShort v := by
    intro v hv
    have hsmall : v = 1 ∨ v = 2 := by grind
    rcases hsmall with rfl | rfl <;> exact Numeral.isWritable_iff.mp (by decide +kernel)
  have hbreaks : c.monitor.Breaks 1 := ⟨by decide +kernel, by decide +kernel⟩
  obtain ⟨k, hk, -, hpos, hsays⟩ := hrun "run 3" 3 (by decide +kernel)
  obtain rfl : k = 1 :=
    Nat.le_antisymm (hk.2 (.inr (.inl ⟨Nat.le_refl 1, hbreaks⟩))) (hpos (by decide))
  have hanswer := hsays (hshort _ (.inl (by decide +kernel)))
  obtain ⟨k, hk, hsteps⟩ := hstep "step 3" 3 (by decide +kernel)
  have hthird : IsLeast {j | c.monitor.unbroken.Stops 1 3 j} 3 := by
    refine ⟨.inl rfl, fun j hj => ?_⟩
    rcases hj with rfl | ⟨-, -, hpc⟩ | hends
    · exact Nat.le_refl 3
    · cases hpc
    · by_contra hlt
      have hj : j = 0 ∨ j = 1 ∨ j = 2 := by omega
      have hnone : c.monitor.unbroken.ends 0 = false ∧ c.monitor.unbroken.ends 1 = false ∧
          c.monitor.unbroken.ends 2 = false := by decide +kernel
      rcases hj with rfl | rfl | rfl <;> simp_all
  obtain rfl : k = 3 := Nat.le_antisymm (hk.2 hthird.1) (hthird.2 hk.1)
  have hshown : ∀ i < 3, (c.monitor.attempted i).Displays := by
    intro i hi
    have hentries : ∀ i < 3, Numeral.isWritable (c.monitor.attempted i).machine.pc = true ∧
        (Listing.entry (c.monitor.attempted i).machine.memory
          (c.monitor.attempted i).machine.pc).isOk = true := by
      decide +kernel
    obtain ⟨hpc, hentry⟩ := hentries i hi
    refine ⟨hpc, ?_⟩
    cases he : Listing.entry (c.monitor.attempted i).machine.memory
        (c.monitor.attempted i).machine.pc with
    | ok entry => exact ⟨entry.1, entry.2, rfl⟩
    | error e =>
      rw [he] at hentry
      cases hentry
  obtain ⟨hleft, hrest⟩ := hsteps (hshort _ (.inr (by decide +kernel))) hshown
  refine ⟨?_, ?_, hleft, hrest "run 3" (by decide +kernel)⟩
  · rw [hanswer]
    decide +kernel
  · rw [hanswer]
    decide +kernel

/-- A jump to a breakpoint whose address is too long to write. -/
theorem run_stops_unannounced :
    let address : Int := Numeral.writeBound
    let m : Monitor := { machine := .ofCells [1106, 0, address], breakpoints := [address] }
    (IsLeast {j | m.Stops 1 5 j} 1 ∧ m.Breaks 1 ∧ m.ends 1 = false ∧ m.emitted 1 = []) ∧
      onLine "run 5" m =
        (.ok false, m.attempted 1, "Error: " ++ NumeralError.tooLong.message ++ "\n") ∧
      (onLine "run 5" m).2.2 ≠ s!"Breakpoint hit at {(m.attempted 1).machine.pc}\n" := by
  intro address m
  have hbreaks : m.Breaks 1 := by
    refine ⟨?_, ?_⟩
    · decide +kernel
    · decide +kernel
  have hanswer : onLine "run 5" m =
      (.ok false, m.attempted 1, "Error: " ++ NumeralError.tooLong.message ++ "\n") := by
    decide +kernel
  have hleast : IsLeast {j | m.Stops 1 5 j} 1 := by
    refine ⟨.inr (.inl ⟨Nat.le_refl 1, hbreaks⟩), fun j hj => ?_⟩
    refine Nat.pos_of_ne_zero fun hzero => ?_
    exact not_stops_zero (fun h => absurd h.1 Nat.one_ne_zero) (hzero ▸ hj)
  refine ⟨⟨hleast, hbreaks, by decide +kernel, by decide +kernel⟩, hanswer, fun h => ?_⟩
  have hfirst := congrArg (fun text => text.toList.head?) h
  rw [hanswer] at hfirst
  simp only [toString, String.toList_append, List.append_assoc] at hfirst
  exact absurd (Option.some.inj hfirst) (by decide)

end Monitor

end Intcode
