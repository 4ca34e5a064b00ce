import Intcode.Proofs.Decimal
import Intcode.Proofs.Reading
import Intcode.Proofs.Stopping

namespace Intcode

namespace Memory

/-- Stores values into successive cells, which are there from then on. -/
def overwrite (m : Memory) (a : Nat) : List Int → Memory
  | [] => m
  | v :: vs => ((m.cover a).set a v).overwrite (a + 1) vs

theorem size_overwrite (m : Memory) (a : Nat) (vs : List Int) :
    (m.overwrite a vs).size = if vs = [] then m.size else max m.size (a + vs.length) := by
  induction vs generalizing m a with
  | nil => rfl
  | cons v vs ih =>
    rw [overwrite, ih, size_set, size_cover, if_neg (List.cons_ne_nil v vs), List.length_cons]
    split
    next hnil =>
      subst hnil
      rfl
    next => omega

theorem get_overwrite (m : Memory) (a b : Nat) (vs : List Int) :
    (m.overwrite a vs).get b =
      if a ≤ b ∧ b < a + vs.length then vs.getD (b - a) 0 else m.get b := by
  induction vs generalizing m a with
  | nil =>
    have hout : ¬ (a ≤ b ∧ b < a + 0) := by omega
    exact (if_neg hout).symm
  | cons v vs ih =>
    rw [overwrite, ih, get_set, get_cover, size_cover, List.length_cons]
    by_cases hb : a = b
    · subst hb
      have hin : a ≤ a ∧ a < a + (vs.length + 1) := by omega
      have hout : ¬ (a + 1 ≤ a ∧ a < a + 1 + vs.length) := by omega
      have hthere : a = a ∧ a < max m.size (a + 1) := by omega
      rw [if_pos hin, if_neg hout, if_pos hthere, Nat.sub_self]
      rfl
    · have hiff : a + 1 ≤ b ∧ b < a + 1 + vs.length ↔ a ≤ b ∧ b < a + (vs.length + 1) := by omega
      rw [if_neg (mt And.left hb)]
      by_cases hin : a ≤ b ∧ b < a + (vs.length + 1)
      · have hnext : b - a = b - (a + 1) + 1 := by omega
        rw [if_pos (hiff.mpr hin), if_pos hin, hnext, List.getD_cons_succ]
      · rw [if_neg (mt hiff.mp hin), if_neg hin]

end Memory

namespace Argument

/-- The numbers that a list of words starts with, up to the first word that is none. -/
def leading : List String → List Int
  | [] => []
  | word :: rest =>
    match number word with
    | .ok n => n :: leading rest
    | .error _ => []

/-- The cell that an assignment starts with, and what it writes from there on until a word is
bad. -/
def assigned (m : Machine) (argument : String) : Nat × List Int :=
  match words argument with
  | .ok (word :: values) =>
    match address m word with
    | .ok a => if a < 0 then (0, []) else (a.toNat, leading values)
    | .error _ => (0, [])
  | _ => (0, [])

/-- The address that an argument names, where it is too long to be told. -/
def untold? (m : Machine) (argument : String) : Option Int :=
  (address m argument).toOption.filter fun a => !Numeral.isWritable a

end Argument

namespace Command

def edits : Command → Bool
  | .call verb _ => ([.input, .setmem, .bp, .bpd] : List Verb).contains verb
  | _ => false

/-- What a rejected command leaves of the memory. -/
def memoryLeft (m : Machine) : Command → Memory
  | .call .setmem argument =>
    let (a, values) := Argument.assigned m argument
    m.memory.overwrite a values
  | _ => m.memory

/-- What a rejected command leaves of the breakpoints. -/
def breakpointsLeft (m : Monitor) : Command → List Int
  | .call .bp argument =>
    match Argument.untold? m.machine argument with
    | some a => (m.addBreakpoint a).breakpoints
    | none => m.breakpoints
  | .call .bpd argument =>
    match Argument.untold? m.machine argument with
    | some a => (m.removeBreakpoint a).breakpoints
    | none => m.breakpoints
  | _ => m.breakpoints

/-- What a rejected command leaves of the monitor. -/
def left (m : Monitor) (command : Command) : Monitor :=
  { m with
    machine := { m.machine with memory := command.memoryLeft m.machine }
    breakpoints := command.breakpointsLeft m }

end Command

def Reports (text : String) : Prop := ∃ before message, text = before ++ "Error: " ++ message

/-- The text has no character that a report of an error starts with. -/
def Quiet (text : String) : Prop := 'E' ∉ text.toList

instance (text : String) : Decidable (Quiet text) := inferInstanceAs (Decidable ('E' ∉ text.toList))

theorem Quiet.append {s t : String} (hs : Quiet s) (ht : Quiet t) : Quiet (s ++ t) := by
  intro h
  rw [String.toList_append] at h
  rcases List.mem_append.mp h with h | h
  · exact hs h
  · exact ht h

theorem quiet_int (n : Int) : Quiet (toString n) := Numeral.not_mem_toString rfl n

theorem quiet_nat (n : Nat) : Quiet (toString n) := quiet_int n

theorem Quiet.not_reports {text : String} (h : Quiet text) : ¬ Reports text := by
  rintro ⟨before, message, rfl⟩
  refine h ?_
  simp [String.toList_append]

namespace Session

variable {α : Type} {c : Console}

/-- The action leaves a monitor, or else it completes with a line that reports no error. -/
def Settles (act : Session α) (c : Console) (left : Monitor) : Prop :=
  act.leaves c = left ∨ ∃ x c' line, act.run c = .ok x c' ∧
    c'.printed = c.printed ++ line ∧ Quiet line

theorem Settles.of_error {act : Session α} {c' : Console} {t : Trouble} {left : Monitor}
    (h : act.run c = .error t c') (hleft : c'.monitor = left) : Settles act c left := by
  refine .inl ?_
  rw [leaves, h]
  exact hleft

theorem Settles.bind {β : Type} {act : Session α} {f : α → Session β} {x : α} {c' : Console}
    {left : Monitor} (h : act.run c = .ok x c') (hp : c'.printed = c.printed)
    (hrest : Settles (f x) c' left) : Settles (act >>= f) c left := by
  rcases hrest with hleft | ⟨y, c₁, line, hrun, hline, hfree⟩
  · exact .inl ((leaves_bind_ok h).trans hleft)
  · exact .inr ⟨y, c₁, line, (run_bind_ok h).trans hrun, by rw [hline, hp], hfree⟩

theorem Settles.bind_pure {β : Type} {act : Session α} {left : Monitor}
    (h : Settles act c left) (y : β) :
    Settles (act >>= fun _ => pure y) c left := by
  rcases h with hleft | ⟨x, c', line, hrun, hline⟩
  · exact .inl ((leaves_bind_pure act y c).trans hleft)
  · exact .inr ⟨y, c', line, run_bind_ok hrun, hline⟩

theorem Settles.say {line : String} {left : Monitor} (h : Quiet line) : Settles (say line) c left :=
  .inr ⟨(), c.saying line, line ++ "\n", rfl, rfl, h.append (by decide)⟩

theorem Settles.tell {a : Int} {line : String → String} {left : Monitor}
    (hleft : Numeral.isWritable a = false → c.monitor = left)
    (hline : Quiet (line (toString a))) :
    Settles (number a >>= fun text => Session.say (line text)) c left := by
  cases hw : Numeral.isWritable a with
  | false =>
    have hrun : (number a).run c = .error (.numeral .tooLong) c := by
      rw [number, Numeral.write, hw]
      rfl
    exact .of_error (run_bind_error hrun) (hleft hw)
  | true =>
    have hrun : (number a).run c = .ok (toString a) c := by
      rw [number, Numeral.write, hw]
      rfl
    exact .bind hrun rfl (.say hline)

theorem Settles.inputCommand (argument : String) (c : Console) :
    Settles (inputCommand argument) c c.monitor := by
  have hwords := Reads.arguments argument c
  unfold Session.inputCommand
  cases hw : Argument.words argument with
  | error t =>
    rw [hw] at hwords
    exact .of_error (run_bind_error hwords) rfl
  | ok words =>
    rw [hw] at hwords
    refine .bind hwords rfl ?_
    split
    next =>
      exact .inl (leaves_of_keeps (.look fun m _ => .bind (.ofNumeral _) fun texts => .say _) rfl)
    next =>
      have hnumbers := Reads.numbers words c
      cases hn : Argument.numbers words with
      | error t =>
        rw [hn] at hnumbers
        exact .of_error (run_bind_error hnumbers) rfl
      | ok numbers =>
        rw [hn] at hnumbers
        have hnone : Quiet "Queued " := by decide
        have hquiet (n k : Nat) : Quiet s!"Queued {n} value(s), {k} pending" :=
          (((hnone.append (quiet_nat n)).append (by decide)).append (quiet_nat k)).append
            (by decide)
        exact .bind hnumbers rfl (.bind rfl rfl (.bind rfl rfl (.say (hquiet _ _))))

theorem untold?_of_isBlankText {argument : String} (h : isBlankText argument = true) (m : Machine) :
    Argument.untold? m argument = none := by
  have hblank : Text.trim argument.toList = [] := List.isEmpty_iff.mp h
  rw [Argument.untold?, Argument.address, hblank]
  rfl

theorem Settles.edit {argument : String} {f : Int → Monitor → Monitor} {line : String → String}
    (hline : ∀ a : Int, Quiet (line (toString a))) (c : Console) :
    Settles (do
        let a ← parseAddress argument
        update (f a)
        let text ← number a
        Session.say (line text)) c
      (match Argument.untold? c.monitor.machine argument with
        | some a => f a c.monitor
        | none => c.monitor) := by
  have hread := Reads.parseAddress argument c
  cases ha : Argument.address c.monitor.machine argument with
  | error t =>
    rw [ha] at hread
    refine .of_error (run_bind_error hread) ?_
    rw [Argument.untold?, ha]
    rfl
  | ok a =>
    rw [ha] at hread
    refine .bind hread rfl (.bind rfl rfl (.tell (fun hw => ?_) (hline a)))
    have huntold : Argument.untold? c.monitor.machine argument = some a := by
      simp [Argument.untold?, ha, Except.toOption, Option.filter, hw]
    rw [huntold]

theorem left_of_breakpoints {verb : Verb} {argument : String} {f : Int → Monitor → Monitor}
    {m : Monitor} (hf : verb = .bp ∧ f = (fun a m => m.addBreakpoint a) ∨
      verb = .bpd ∧ f = fun a m => m.removeBreakpoint a) :
    (Command.call verb argument).left m =
      match Argument.untold? m.machine argument with
      | some a => f a m
      | none => m := by
  rcases hf with ⟨rfl, rfl⟩ | ⟨rfl, rfl⟩
  all_goals
    simp only [Command.left, Command.breakpointsLeft, Command.memoryLeft]
    cases Argument.untold? m.machine argument <;> rfl

theorem Settles.breakCommand (argument : String) (c : Console) :
    Settles (breakCommand argument) c ((Command.call .bp argument).left c.monitor) := by
  rw [left_of_breakpoints (.inl ⟨rfl, rfl⟩)]
  unfold Session.breakCommand
  split
  next hb =>
    rw [untold?_of_isBlankText hb]
    exact .inl (leaves_of_keeps (.look fun m _ => .ite (.say _) (.sayEach _)) rfl)
  next =>
    have hset : Quiet "Breakpoint set at " := by decide
    exact .edit (f := fun a m => m.addBreakpoint a) (fun a => hset.append (quiet_int a)) c

theorem Settles.unbreakCommand (argument : String) (c : Console) :
    Settles (unbreakCommand argument) c ((Command.call .bpd argument).left c.monitor) := by
  rw [left_of_breakpoints (.inr ⟨rfl, rfl⟩)]
  unfold Session.unbreakCommand
  split
  next => exact .bind rfl rfl (.say (by decide))
  next =>
    have hremoved : Quiet "Breakpoint removed at " := by decide
    exact .edit (f := fun a m => m.removeBreakpoint a) (fun a => hremoved.append (quiet_int a)) c

theorem leaves_writeCells {a : Int} (ha : 0 ≤ a) (words : List String) (c : Console) :
    (writeCells a words).leaves c = { c.monitor with
      machine.memory := c.monitor.machine.memory.overwrite a.toNat (Argument.leading words) } := by
  induction words generalizing a c with
  | nil => rfl
  | cons word words ih =>
    have hread := Reads.parseNumber word c
    unfold writeCells Argument.leading
    cases hn : Argument.number word with
    | error t =>
      rw [hn] at hread
      exact leaves_bind_error hread
    | ok n =>
      rw [hn] at hread
      have hnext : (a + 1).toNat = a.toNat + 1 := by omega
      rw [leaves_bind_ok hread, leaves_bind_ok (run_writeCell_of_nonneg ha n c),
        ih (by omega), hnext]
      rfl

theorem leaves_writeCells_below {a : Int} (ha : a < 0) (words : List String) (c : Console) :
    (writeCells a words).leaves c = c.monitor := by
  cases words with
  | nil => rfl
  | cons word words =>
    -- The first value fails at the address even where it is a number, so that no later one is read.
    have hread := Reads.parseNumber word c
    unfold writeCells
    cases hn : Argument.number word with
    | error t =>
      rw [hn] at hread
      exact leaves_bind_error hread
    | ok n =>
      rw [hn] at hread
      rw [leaves_bind_ok hread, leaves_bind_error (run_writeCell_of_neg ha n c)]

theorem left_setmem (argument : String) (m : Monitor) :
    (Command.call .setmem argument).left m = { m with
      machine.memory := m.machine.memory.overwrite (Argument.assigned m.machine argument).1
        (Argument.assigned m.machine argument).2 } := rfl

theorem leaves_writeCells_assigned {argument word : String} {words : List String} {a : Int}
    {c : Console} (hw : Argument.words argument = .ok (word :: words))
    (ha : Argument.address c.monitor.machine word = .ok a) :
    (writeCells a words).leaves c = (Command.call .setmem argument).left c.monitor := by
  have hassigned : Argument.assigned c.monitor.machine argument =
      if a < 0 then (0, []) else (a.toNat, Argument.leading words) := by
    simp only [Argument.assigned, hw, ha]
  rw [left_setmem, hassigned]
  split
  next hneg => exact leaves_writeCells_below hneg words c
  next hneg => exact leaves_writeCells (by omega) words c

theorem Settles.setCommand (argument : String) (c : Console) :
    Settles (setCommand argument) c ((Command.call .setmem argument).left c.monitor) := by
  have hwords := Reads.arguments argument c
  have hnothing (h : Argument.assigned c.monitor.machine argument = (0, [])) :
      c.monitor = (Command.call .setmem argument).left c.monitor := by
    rw [left_setmem, h]
    rfl
  unfold Session.setCommand
  cases hw : Argument.words argument with
  | error t =>
    rw [hw] at hwords
    exact .of_error (run_bind_error hwords) (hnothing (by rw [Argument.assigned, hw]))
  | ok words =>
    rw [hw] at hwords
    refine .bind hwords rfl ?_
    match words with
    | [] | [_] => exact .say (by decide)
    | word :: value :: rest =>
      have hfirst := Reads.parseAddress word c
      cases ha : Argument.address c.monitor.machine word with
      | error t =>
        rw [ha] at hfirst
        exact .of_error (run_bind_error hfirst)
          (hnothing (by simp only [Argument.assigned, hw, ha]))
      | ok a =>
        rw [ha] at hfirst
        have hleaves := leaves_writeCells_assigned hw ha
        obtain ⟨c', hprinted, hrun⟩ := run_writeCells a (value :: rest) c
        have hwrote : Quiet "  Wrote " := by decide
        have hquiet (n : Nat) (k : Int) : Quiet s!"  Wrote {n} cell(s) at {k}" :=
          ((hwrote.append (quiet_nat n)).append (by decide)).append (quiet_int k)
        refine .bind hfirst rfl ?_
        cases hv : Argument.values a (value :: rest) with
        | error t =>
          rw [hv] at hrun
          simp only [leaves, hrun] at hleaves
          exact .of_error (run_bind_error hrun) hleaves
        | ok _ =>
          rw [hv] at hrun
          simp only [leaves, hrun] at hleaves
          exact .bind hrun hprinted (.tell (fun _ => hleaves) (hquiet _ a))

theorem Settles.carryOut {command : Command} (h : command.edits = true) (c : Console) :
    Settles (carryOut command) c (command.left c.monitor) := by
  cases command with
  | nothing | unknown line => cases h
  | call verb argument =>
    cases verb with
    | input => exact (Settles.inputCommand argument c).bind_pure _
    | setmem => exact (Settles.setCommand argument c).bind_pure _
    | bp => exact (Settles.breakCommand argument c).bind_pure _
    | bpd => exact (Settles.unbreakCommand argument c).bind_pure _
    | continue_ | disasm | dump | endOfInput | help | output | quit | regs | run | status | step =>
      cases h

end Session

namespace Monitor

open Session

variable {line : String} {m : Monitor}

theorem onLine_left (hedits : (Command.ofLine line).edits = true)
    (h : Reports (onLine line m).2.2) :
    (onLine line m).2.1 = (Command.ofLine line).left m := by
  rcases Settles.carryOut hedits
    { monitor := m } with hleft | ⟨stop, c', text, hrun, hprinted, hquiet⟩
  · rw [onLine_monitor]
    exact hleft
  · have htext : (onLine line m).2.2 = text := by
      unfold onLine answer
      rw [hrun]
      simpa using hprinted
    exact absurd (htext ▸ h) hquiet.not_reports

theorem untold?_eq_some {argument : String} {a : Int} {machine : Machine}
    (h : Argument.untold? machine argument = some a) :
    Argument.address machine argument = .ok a ∧ ¬ Numeral.IsShort a := by
  unfold Argument.untold? at h
  cases ha : Argument.address machine argument with
  | error t =>
    rw [ha] at h
    cases h
  | ok b =>
    rw [ha] at h
    obtain ⟨hb, hw⟩ := Option.filter_eq_some_iff.mp h
    cases hb
    refine ⟨rfl, fun hs => ?_⟩
    rw [Numeral.isWritable_iff.mpr hs] at hw
    cases hw

theorem memory_left_ne {command : Command}
    (h : (command.left m).machine.memory ≠ m.machine.memory) :
    ∃ argument a values, command = .call .setmem argument ∧
      Argument.assigned m.machine argument = (a, values) ∧ values ≠ [] ∧
      (command.left m).machine.memory.size = max m.machine.memory.size (a + values.length) ∧
      ∀ b, (command.left m).machine.memory.get b =
        if a ≤ b ∧ b < a + values.length then values.getD (b - a) 0
          else m.machine.memory.get b := by
  cases command with
  | nothing | unknown => exact absurd rfl h
  | call verb argument =>
    cases verb with
    | setmem =>
      rcases hassigned : Argument.assigned m.machine argument with ⟨a, values⟩
      rw [left_setmem, hassigned] at h ⊢
      have hne : values ≠ [] := by
        rintro rfl
        exact h rfl
      have hsize := (m.machine.memory.size_overwrite a values).trans (if_neg hne)
      exact ⟨argument, a, values, rfl, hassigned, hne, hsize, fun b => Memory.get_overwrite _ _ b _⟩
    | bp | bpd | continue_ | disasm | dump | endOfInput | help | input | output | quit | regs | run
    | status | step => exact absurd rfl h

theorem breakpoints_left_ne {command : Command} (h : (command.left m).breakpoints ≠ m.breakpoints) :
    ∃ verb argument a, command = .call verb argument ∧ (verb = .bp ∨ verb = .bpd) ∧
      Argument.address m.machine argument = .ok a ∧ ¬ Numeral.IsShort a := by
  cases command with
  | nothing | unknown => exact absurd rfl h
  | call verb argument =>
    cases verb with
    | bp | bpd =>
      cases hu : Argument.untold? m.machine argument with
      | none =>
        refine absurd ?_ h
        simp only [Command.left, Command.breakpointsLeft, hu]
      | some a => exact ⟨_, argument, a, rfl, by decide, untold?_eq_some hu⟩
    | continue_ | disasm | dump | endOfInput | help | input | output | quit | regs | run | setmem
    | status | step => exact absurd rfl h

/-- An input line that reports an error changes nothing, and neither does another edit, unless a
good value stands before a bad one or the address of a breakpoint is too long to be told. In any
case all but the memory and the breakpoints is as before. -/
theorem rejected_edit_leaves (hedits : (Command.ofLine line).edits = true)
    (hreports : Reports (onLine line m).2.2) :
    let after := (onLine line m).2.1
    after = (Command.ofLine line).left m ∧
      after = { m with
        machine.memory := after.machine.memory
        breakpoints := after.breakpoints } ∧
      (after.machine.memory ≠ m.machine.memory → ∃ argument a values,
        Command.ofLine line = .call .setmem argument ∧
          Argument.assigned m.machine argument = (a, values) ∧ values ≠ [] ∧
          after.machine.memory.size = max m.machine.memory.size (a + values.length) ∧
          ∀ b, after.machine.memory.get b =
            if a ≤ b ∧ b < a + values.length then values.getD (b - a) 0
              else m.machine.memory.get b) ∧
      (after.breakpoints ≠ m.breakpoints → ∃ verb argument a,
        Command.ofLine line = .call verb argument ∧ (verb = .bp ∨ verb = .bpd) ∧
          Argument.address m.machine argument = .ok a ∧ ¬ Numeral.IsShort a) := by
  intro after
  have hleft : after = (Command.ofLine line).left m := onLine_left hedits hreports
  refine ⟨hleft, ?_, ?_, ?_⟩
  · rw [hleft]
    rfl
  · rw [hleft]
    exact memory_left_ne
  · rw [hleft]
    exact breakpoints_left_ne

/-- Two good values before a bad one. -/
theorem rejected_edit_leaves_good_values :
    let m : Monitor := { machine := .ofCells [99] }
    ((Command.ofLine "setmem 0 7 8 x").edits = true ∧ Reports (onLine "setmem 0 7 8 x" m).2.2) ∧
      (onLine "setmem 0 7 8 x" m).2.1 = { m with machine := .ofCells [7, 8] } := by
  intro m
  have hedits : (Command.ofLine "setmem 0 7 8 x").edits = true := by decide +kernel
  have hreports : Reports (onLine "setmem 0 7 8 x" m).2.2 :=
    ⟨"", "invalid literal for int() with base 0: 'x'\n", by decide +kernel⟩
  obtain ⟨hleft, -⟩ := rejected_edit_leaves hedits hreports
  exact ⟨⟨hedits, hreports⟩, hleft.trans (by decide +kernel)⟩

/-- A value that is written before a bad one is found. -/
theorem rejected_edit_writes :
    let m : Monitor := { machine := .ofCells [99] }
    (Command.ofLine "setmem 0 7 x").edits = true ∧ Reports (onLine "setmem 0 7 x" m).2.2 ∧
      (onLine "setmem 0 7 x" m).2.1 = { m with machine := .ofCells [7] } ∧
      (onLine "setmem 0 7 x" m).2.1.machine.memory ≠ m.machine.memory := by
  intro m
  refine ⟨by decide +kernel, ?_, by decide +kernel, by decide +kernel⟩
  exact ⟨"", "invalid literal for int() with base 0: 'x'\n", by decide +kernel⟩

end Monitor

end Intcode
