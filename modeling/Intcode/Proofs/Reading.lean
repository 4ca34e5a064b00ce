import Intcode.Proofs.Command

namespace Intcode

namespace Argument

def number (s : String) : Except Trouble Int :=
  (Numeral.readLiteral (Text.trim s.toList)).mapError .numeral

def numbers (words : List String) : Except Trouble (List Int) :=
  (words.mapM fun word => Numeral.readLiteral (Text.trim word.toList)).mapError .numeral

/-- The address that an argument names: a number, or what a register of the machine holds. -/
def address (m : Machine) (s : String) : Except Trouble Int :=
  let cs := Text.lowercase (Text.trim s.toList)
  if cs = ['p', 'c'] then .ok m.pc
  else if cs = ['r', 'b'] then .ok m.relativeBase
  else (Numeral.readLiteral cs).mapError .numeral

def words (s : String) : Except Trouble (List String) := (Text.words s).mapError .words

/-- Where a listing starts and how long it is, with what holds where the words do not say. -/
def listingOf (m : Machine) (origin : Int) (length : Int → Int) :
    List String → Except Trouble (Int × Int)
  | [] => .ok (origin, length origin)
  | [word] => address m word >>= fun first => .ok (first, length first)
  | word :: count :: _ => address m word >>= fun first => number count >>= fun n => .ok (first, n)

def listing (m : Machine) (origin : Int) (length : Int → Int) (s : String) :
    Except Trouble (Int × Int) := words s >>= listingOf m origin length

def dumpListing (m : Machine) (s : String) : Except Trouble (Int × Int) :=
  listing m 0 (fun first => max (m.memory.size - first) 0) s

def disassemblyListing (m : Machine) (s : String) : Except Trouble (Int × Int) :=
  listing m m.pc (fun _ => 16) s

/-- Values for successive cells; a cell without an address is as bad as a value that is no
number. -/
def values : (address : Int) → List String → Except Trouble Unit
  | _, [] => .ok ()
  | a, word :: rest => number word >>= fun _ =>
    if a < 0 then .error (.machine (.ofFault (.negativeAddress a))) else values (a + 1) rest

def assignment (m : Machine) : List String → Except Trouble Unit
  | word :: value :: rest => address m word >>= fun a => values a (value :: rest)
  | _ => .ok ()

/-- Whatever is wrong, a session reports it and goes on. -/
def Reported {α : Type} (r : Except Trouble α) : Prop := ∀ t, r = .error t → t.breakdown? = none

section

variable {α β : Type}

theorem Reported.ok (x : α) : Reported (.ok x) := nofun

theorem Reported.bind {r : Except Trouble α} {g : α → Except Trouble β} (hr : Reported r)
    (hg : ∀ x, Reported (g x)) : Reported (r >>= g) := by
  intro t h
  cases r with
  | error t' =>
    cases h
    exact hr t rfl
  | ok x => exact hg x t h

theorem Reported.ofNumeral (r : Except NumeralError α) : Reported (r.mapError .numeral) := by
  intro t h
  cases r with
  | error e =>
    cases h
    rfl
  | ok x => cases h

theorem Reported.words (s : String) : Reported (words s) := by
  intro t h
  unfold Argument.words at h
  cases hw : Text.words s with
  | error e =>
    rw [hw] at h
    cases h
    rfl
  | ok found =>
    rw [hw] at h
    cases h

theorem Reported.address (m : Machine) (s : String) : Reported (address m s) := by
  unfold Argument.address
  simp only
  split
  · exact .ok _
  · split
    · exact .ok _
    · exact .ofNumeral _

theorem Reported.listing (m : Machine) (origin : Int) (length : Int → Int) (s : String) :
    Reported (listing m origin length s) := by
  refine .bind (.words s) fun found => ?_
  unfold listingOf
  split
  · exact .ok _
  · exact .bind (.address m _) fun first => .ok _
  · exact .bind (.address m _) fun first => .bind (.ofNumeral _) fun n => .ok _

theorem Reported.values (a : Int) (words : List String) : Reported (values a words) := by
  induction words generalizing a with
  | nil => exact .ok _
  | cons word words ih =>
    refine .bind (.ofNumeral _) fun n => ?_
    split
    · intro t h
      cases h
      unfold Error.ofFault
      split <;> rfl
    · exact ih (a + 1)

theorem Reported.assignment (m : Machine) (words : List String) :
    Reported (assignment m words) := by
  unfold Argument.assignment
  split
  · exact .bind (.address m _) fun a => .values a _
  · exact .ok _

end

def trouble? {α : Type} : Except Trouble α → Option Trouble
  | .ok _ => none
  | .error t => some t

theorem trouble?_eq_some {α : Type} {r : Except Trouble α} {t : Trouble} :
    trouble? r = some t ↔ r = .error t := by
  cases r <;> simp [trouble?]

/-- Goes on with what was read on a console, which the reading leaves alone. -/
def onto {α β : Type} (c : Console) (r : Except Trouble α)
    (next : α → EStateM.Result Trouble Console β) : EStateM.Result Trouble Console β :=
  match r with
  | .ok x => next x
  | .error t => .error t c

theorem onto_bind {α β γ : Type} (c : Console) (r : Except Trouble α) (g : α → Except Trouble β)
    (next : β → EStateM.Result Trouble Console γ) :
    onto c (r >>= g) next = onto c r fun x => onto c (g x) next := by
  cases r <;> rfl

end Argument

namespace Session

open Argument (onto)

variable {α β : Type}

/-- The action reads from the console and leaves it alone. -/
def Reads (act : Session α) (c : Console) (r : Except Trouble α) : Prop :=
  act.run c = onto c r fun x => .ok x c

theorem Reads.bind {act : Session α} {c : Console} {r : Except Trouble α} (h : act.Reads c r)
    (f : α → Session β) : (act >>= f).run c = onto c r fun x => (f x).run c := by
  rw [EStateM.run_bind, h]
  cases r <;> rfl

theorem Reads.ofNumeral (r : Except NumeralError α) (c : Console) :
    (ofNumeral r).Reads c (r.mapError .numeral) := by
  unfold Reads
  rw [run_ofNumeral]
  cases r <;> rfl

theorem Reads.monitor (c : Console) : monitor.Reads c (.ok c.monitor) := rfl

theorem Reads.arguments (s : String) (c : Console) :
    (arguments s).Reads c (Argument.words s) := by
  unfold Reads Argument.words
  rw [run_arguments]
  cases Text.words s <;> rfl

theorem Reads.parseNumber (s : String) (c : Console) :
    (parseNumber s).Reads c (Argument.number s) := .ofNumeral _ c

theorem Reads.parseAddress (s : String) (c : Console) :
    (parseAddress s).Reads c (Argument.address c.monitor.machine s) := by
  unfold Session.parseAddress Argument.address
  refine ((Reads.monitor c).bind _).trans ?_
  simp only [onto]
  split
  · rfl
  · split
    · rfl
    · have hread := Reads.ofNumeral (Numeral.readLiteral (Text.lowercase (Text.trim s.toList))) c
      simpa only [Reads, onto] using hread

theorem run_dumpCommand (argument : String) (c : Console) :
    (dumpCommand argument).run c =
      onto c (Argument.dumpListing c.monitor.machine argument) fun (first, count) =>
        (dumpRows c.monitor.machine.memory ((count.toNat + (rowLength - 1)) / rowLength) first
          (first + count)).run c := by
  unfold dumpCommand Argument.dumpListing Argument.listing
  rw [(Reads.arguments argument c).bind, Argument.onto_bind]
  refine congrArg (onto c _) (funext fun words => ?_)
  cases words with
  | nil => rfl
  | cons word words =>
    have hfirst := Reads.parseAddress word c
    cases words with
    | nil =>
      rw [hfirst.bind, Argument.listingOf, Argument.onto_bind]
      rfl
    | cons count words =>
      rw [hfirst.bind, Argument.listingOf, Argument.onto_bind]
      refine congrArg (onto c _) (funext fun first => ?_)
      rw [(Reads.monitor c).bind, Argument.onto_bind]
      exact (Reads.parseNumber count c).bind _

theorem run_disassembleCommand (argument : String) (c : Console) :
    (disassembleCommand argument).run c =
      onto c (Argument.disassemblyListing c.monitor.machine argument) fun (first, count) =>
        (disassemble c.monitor.machine.memory c.monitor.machine.pc count.toNat first).run c := by
  unfold disassembleCommand Argument.disassemblyListing Argument.listing
  rw [(Reads.arguments argument c).bind, Argument.onto_bind]
  refine congrArg (onto c _) (funext fun words => ?_)
  rw [(Reads.monitor c).bind]
  cases words with
  | nil => rfl
  | cons word words =>
    have hfirst := Reads.parseAddress word c
    cases words with
    | nil =>
      rw [Argument.listingOf, Argument.onto_bind]
      exact hfirst.bind _
    | cons count words =>
      rw [Argument.listingOf, Argument.onto_bind]
      refine (hfirst.bind _).trans ?_
      refine congrArg (onto c _) (funext fun first => ?_)
      rw [Argument.onto_bind]
      exact (Reads.parseNumber count c).bind _

theorem Reads.countOr (fallback : Int) (argument : String) (c : Console) :
    (countOr fallback argument).Reads c
      (if isBlankText argument then .ok fallback else Argument.number argument) := by
  unfold Session.countOr
  split
  · rfl
  · exact .parseNumber argument c

theorem Reads.numbers (words : List String) (c : Console) :
    (words.mapM Session.parseNumber).Reads c (Argument.numbers words) := by
  have hread := Reads.ofNumeral
    (words.mapM fun word => Numeral.readLiteral (Text.trim word.toList)) c
  rw [← mapM_ofNumeral] at hread
  exact hread

theorem run_writeCell_of_neg {a : Int} (ha : a < 0) (n : Int) (c : Console) :
    (writeCell a n).run c = .error (.machine (.ofFault (.negativeAddress a))) c := by
  unfold writeCell
  rw [(Reads.monitor c).bind]
  simp only [onto, Machine.write_of_neg _ ha]
  rfl

theorem run_writeCell_of_nonneg {a : Int} (ha : 0 ≤ a) (n : Int) (c : Console) :
    (writeCell a n).run c = .ok () { c with
      monitor.machine.memory := (c.monitor.machine.memory.cover a.toNat).set a.toNat n } := by
  unfold writeCell
  rw [(Reads.monitor c).bind]
  simp only [onto, Machine.write_integer _ ha]
  rfl

/-- A cell is written unless it has no address; then there is nothing to write. -/
theorem run_writeCell (a n : Int) (c : Console) :
    ∃ c', c'.printed = c.printed ∧ (writeCell a n).run c =
      if a < 0 then .error (.machine (.ofFault (.negativeAddress a))) c' else .ok () c' := by
  by_cases ha : a < 0
  · exact ⟨c, rfl, (run_writeCell_of_neg ha n c).trans (if_pos ha).symm⟩
  · refine ⟨_, ?_, (run_writeCell_of_nonneg (Int.not_lt.mp ha) n c).trans (if_neg ha).symm⟩
    rfl

theorem run_writeCells (a : Int) (words : List String) (c : Console) :
    ∃ c', c'.printed = c.printed ∧ (writeCells a words).run c =
      match Argument.values a words with
      | .ok _ => .ok () c'
      | .error t => .error t c' := by
  induction words generalizing a c with
  | nil => exact ⟨c, rfl, rfl⟩
  | cons word words ih =>
    unfold writeCells Argument.values
    rw [(Reads.parseNumber word c).bind]
    cases Argument.number word with
    | error t => exact ⟨c, rfl, rfl⟩
    | ok n =>
      obtain ⟨c₁, hp₁, hcell⟩ := run_writeCell a n c
      by_cases ha : a < 0
      · rw [if_pos ha] at hcell
        refine ⟨c₁, hp₁, ?_⟩
        simp only [onto, bind, Except.bind, if_pos ha]
        exact run_bind_error hcell
      · rw [if_neg ha] at hcell
        obtain ⟨c₂, hp₂, hcells⟩ := ih (a + 1) c₁
        refine ⟨c₂, hp₂.trans hp₁, ?_⟩
        simp only [onto, bind, Except.bind, if_neg ha]
        exact (run_bind_ok hcell).trans hcells

theorem run_setCommand_bad {argument : String} {c : Console} {t : Trouble}
    (h : (Argument.words argument >>= Argument.assignment c.monitor.machine) = .error t) :
    ∃ c', c'.printed = c.printed ∧ (setCommand argument).run c = .error t c' := by
  unfold setCommand
  rw [(Reads.arguments argument c).bind]
  cases hw : Argument.words argument with
  | error t' =>
    rw [hw] at h
    cases h
    exact ⟨c, rfl, rfl⟩
  | ok words =>
    rw [hw] at h
    match words with
    | [] | [_] => cases h
    | word :: value :: rest =>
      have hfirst := Reads.parseAddress word c
      have hassign : (Argument.address c.monitor.machine word >>= fun a =>
          Argument.values a (value :: rest)) = .error t := h
      cases ha : Argument.address c.monitor.machine word with
      | error t' =>
        rw [ha] at hassign hfirst
        cases hassign
        exact ⟨c, rfl, run_bind_error hfirst⟩
      | ok a =>
        rw [ha] at hassign hfirst
        have hvalues : Argument.values a (value :: rest) = .error t := by
          simpa only [bind, Except.bind] using hassign
        obtain ⟨c', hp, hcells⟩ := run_writeCells a (value :: rest) c
        rw [hvalues] at hcells
        exact ⟨c', hp, (run_bind_ok hfirst).trans (run_bind_error hcells)⟩

theorem run_inputCommand_bad {argument : String} {c : Console} {t : Trouble}
    (h : (Argument.words argument >>= Argument.numbers) = .error t) :
    (inputCommand argument).run c = .error t c := by
  unfold inputCommand
  rw [(Reads.arguments argument c).bind]
  cases hw : Argument.words argument with
  | error t' =>
    rw [hw] at h
    cases h
    rfl
  | ok words =>
    rw [hw] at h
    have hnumbers : Argument.numbers words = .error t := h
    have hne : words.isEmpty = false := by
      cases words with
      | nil => cases hnumbers
      | cons word words => rfl
    have hread := Reads.numbers words c
    rw [hnumbers] at hread
    simp only [onto, hne]
    exact run_bind_error hread

end Session

namespace Command

/-- What is wrong with the argument of a command. -/
def badArgument? (m : Machine) : Command → Option Trouble
  | .call .input argument => Argument.trouble? (Argument.words argument >>= Argument.numbers)
  | .call .setmem argument => Argument.trouble? (Argument.words argument >>= Argument.assignment m)
  | .call .bp argument =>
    if Session.isBlankText argument then none else Argument.trouble? (Argument.address m argument)
  | .call .bpd argument =>
    if Text.trim argument.toList = ['a', 'l', 'l'] then none
    else Argument.trouble? (Argument.address m argument)
  | .call .step argument | .call .run argument | .call .continue_ argument =>
    if Session.isBlankText argument then none else Argument.trouble? (Argument.number argument)
  | .call .dump argument => Argument.trouble? (Argument.dumpListing m argument)
  | .call .disasm argument => Argument.trouble? (Argument.disassemblyListing m argument)
  | _ => none

theorem badArgument_reported {m : Machine} {command : Command} {t : Trouble}
    (h : command.badArgument? m = some t) : t.breakdown? = none := by
  cases command with
  | nothing | unknown line => cases h
  | call verb argument =>
    have haddress := Argument.Reported.address m argument
    have hnumber : Argument.Reported (Argument.number argument) := .ofNumeral _
    simp only [badArgument?] at h
    cases verb with
    | endOfInput | help | output | quit | regs | status => cases h
    | input =>
      have hread : Argument.Reported (Argument.words argument >>= Argument.numbers) :=
        .bind (.words argument) fun words => .ofNumeral _
      exact hread t (Argument.trouble?_eq_some.mp h)
    | setmem =>
      have hread : Argument.Reported (Argument.words argument >>= Argument.assignment m) :=
        .bind (.words argument) fun words => .assignment m words
      exact hread t (Argument.trouble?_eq_some.mp h)
    | bp | bpd =>
      simp only at h
      split at h
      · cases h
      · exact haddress t (Argument.trouble?_eq_some.mp h)
    | step | run | continue_ =>
      simp only at h
      split at h
      · cases h
      · exact hnumber t (Argument.trouble?_eq_some.mp h)
    | dump | disasm =>
      exact Argument.Reported.listing _ _ _ argument t (Argument.trouble?_eq_some.mp h)

/-- What the monitor has to print for a command that it does not know or whose argument is bad. -/
inductive Complains (m : Machine) : Command → String → Prop
  | command (line : String) : Complains m (.unknown line) ("*** Unknown syntax: " ++ line ++ "\n")
  | topic {topic : String} : topic ≠ "" → (Verb.ofName? topic).bind Verb.help? = none →
      Complains m (.call .help topic) ("*** No help on " ++ topic ++ "\n")
  | usage {argument : String} {words : List String} : Argument.words argument = .ok words →
      words.length < 2 → Complains m (.call .setmem argument) "Usage: setmem <addr> <value...>\n"
  | argument {command : Command} {t : Trouble} : command.badArgument? m = some t →
      Complains m command ("Error: " ++ t.message ++ "\n")

end Command

namespace Session

theorem run_countOr_bad {argument : String} {c : Console} {t : Trouble} (fallback : Int)
    (h : (if isBlankText argument then none else Argument.trouble? (Argument.number argument)) =
      some t) : (countOr fallback argument).run c = .error t c := by
  have hread := Reads.countOr fallback argument c
  split at h
  next => cases h
  next hb =>
    rw [if_neg hb, Argument.trouble?_eq_some.mp h] at hread
    exact hread

/-- A bad argument ends its command before anything is printed. -/
theorem carryOut_badArgument {command : Command} {c : Console} {t : Trouble}
    (h : command.badArgument? c.monitor.machine = some t) :
    ∃ c', c'.printed = c.printed ∧ (carryOut command).run c = .error t c' := by
  cases command with
  | nothing | unknown line => cases h
  | call verb argument =>
    have haddress (ha : Argument.trouble? (Argument.address c.monitor.machine argument) = some t) :
        (parseAddress argument).run c = .error t c := by
      have hread := Reads.parseAddress argument c
      rw [Argument.trouble?_eq_some.mp ha] at hread
      exact hread
    cases verb with
    | endOfInput | help | output | quit | regs | status => cases h
    | input =>
      exact ⟨c, rfl, run_bind_error (run_inputCommand_bad (Argument.trouble?_eq_some.mp h))⟩
    | setmem =>
      obtain ⟨c', hp, hrun⟩ := run_setCommand_bad (Argument.trouble?_eq_some.mp h)
      exact ⟨c', hp, run_bind_error hrun⟩
    | bp =>
      simp only [Command.badArgument?] at h
      split at h
      next => cases h
      next hb =>
        have hrun : (breakCommand argument).run c = .error t c := by
          unfold breakCommand
          rw [if_neg hb]
          exact run_bind_error (haddress h)
        exact ⟨c, rfl, run_bind_error hrun⟩
    | bpd =>
      simp only [Command.badArgument?] at h
      split at h
      next => cases h
      next hb =>
        have hrun : (unbreakCommand argument).run c = .error t c := by
          unfold unbreakCommand
          rw [if_neg hb]
          exact run_bind_error (haddress h)
        exact ⟨c, rfl, run_bind_error hrun⟩
    | step =>
      have hrun : (stepCommand argument).run c = .error t c := run_bind_error (run_countOr_bad 1 h)
      exact ⟨c, rfl, run_bind_error hrun⟩
    | run | continue_ =>
      have hrun : (runCommand argument).run c = .error t c :=
        run_bind_error (run_countOr_bad defaultSteps h)
      exact ⟨c, rfl, run_bind_error hrun⟩
    | dump =>
      have hrun := run_dumpCommand argument c
      rw [Argument.trouble?_eq_some.mp h] at hrun
      exact ⟨c, rfl, run_bind_error hrun⟩
    | disasm =>
      have hrun := run_disassembleCommand argument c
      rw [Argument.trouble?_eq_some.mp h] at hrun
      exact ⟨c, rfl, run_bind_error hrun⟩

end Session

end Intcode
