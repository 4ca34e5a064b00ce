import Intcode.Journal
import Intcode.Machine.Run
import Intcode.Queue

namespace Intcode

structure Amplifier where
  machine : Machine
  inbox : Queue
deriving DecidableEq, Repr

namespace Amplifier

def inject (a : Amplifier) (values : List Value) : Amplifier :=
  { a with inbox := a.inbox.inject values }

def step (fuel : Nat) (a : Amplifier) (journal : Journal) :
    Option (Except Error (Option Int) × Amplifier × Journal) :=
  (a.machine.step Queue.host.journaled fuel (a.inbox, journal)).map fun o =>
    (o.result, ⟨o.machine, o.host.1⟩, o.host.2)

end Amplifier

structure Chain where
  amplifiers : List Amplifier
  rounds : Nat := 0
  journal : Journal := #[]
deriving DecidableEq, Repr

namespace Chain

def ofPhases (program phases : List Value) : Except Error Chain :=
  if phases.isEmpty then .error .noPhases
  else
    (Machine.load program).map fun m =>
      { amplifiers := phases.map fun phase => ⟨m, ⟨[phase]⟩⟩ }

def size (c : Chain) : Nat := c.amplifiers.length

def allHalted (c : Chain) : Bool := c.amplifiers.all (·.machine.isHalted)

def inject (c : Chain) (index : Nat) (values : List Value) : Chain :=
  { c with amplifiers := c.amplifiers.modify index (·.inject values) }

/-- Hands a signal along a row of amplifiers; the result is the signal of the last one. The first
that gives none ends the run. -/
def relay (fuel : Nat) : (signal : Value) → List Amplifier → Journal →
    Option (Except Error Int × List Amplifier × Journal)
  | _, [], journal => some (.error .noPhases, [], journal)
  | signal, a :: rest, journal =>
    match (a.inject [signal]).step fuel journal with
    | none => none
    | some (.error e, a, journal) => some (.error e, a :: rest, journal)
    | some (.ok none, a, journal) =>
      some (.error (.inputExhausted .silentAmplifier), a :: rest, journal)
    | some (.ok (some v), a, journal) =>
      match rest with
      | [] => some (.ok v, [a], journal)
      | rest =>
        (relay fuel (.integer v) rest journal).map fun (result, rest, journal) =>
          (result, a :: rest, journal)

def runSerial (fuel : Nat) (signal : Value) (c : Chain) : Option (Except Error Int × Chain) :=
  (relay fuel signal c.amplifiers c.journal).map fun (result, amplifiers, journal) =>
    let rounds := match result with
      | .ok _ => c.rounds + 1
      | .error _ => c.rounds
    (result, { amplifiers, rounds, journal })

/-- The turn of one amplifier: unless it has halted it runs to its next output, which goes to the
queue of the amplifier after it. -/
def turn (fuel : Nat) (index : Nat) (c : Chain) :
    Option (Except Error (Option Int) × Chain) :=
  match c.amplifiers[index]? with
  | none => some (.ok none, c)
  | some a =>
    if a.machine.isHalted then some (.ok none, c)
    else
      match a.step fuel c.journal with
      | none => none
      | some (result, a, journal) =>
        let c := { c with amplifiers := c.amplifiers.set index a, journal }
        match result with
        | .error e => some (.error e, c)
        | .ok none =>
          some (.ok none,
            { c with journal := c.journal.push (.amplifierHalted index c.rounds) })
        | .ok (some v) => some (.ok (some v), c.inject ((index + 1) % c.size) [.integer v])

/-- The turns of several amplifiers, given the last signal of the final amplifier so far; the
result is its last signal after them. -/
def turns (fuel : Nat) : List Nat → (last : Option Int) → Chain →
    Option (Except Error (Option Int) × Chain)
  | [], last, c => some (.ok last, c)
  | index :: rest, last, c =>
    match c.turn fuel index with
    | none => none
    | some (.error e, c) => some (.error e, c)
    | some (.ok output, c) =>
      turns fuel rest (if index + 1 = c.size then output.or last else last) c

/-- Rounds of turns until all amplifiers have halted. -/
def roundsFrom : (fuel : Nat) → (last : Option Int) → Chain → Option (Except Error Int × Chain)
  | 0, _, _ => none
  | fuel + 1, last, c =>
    if c.allHalted then
      match last with
      | none => some (.error (.inputExhausted .silentChain), c)
      | some v => some (.ok v, c)
    else
      match c.turns (fuel + 1) (List.range c.size) last with
      | none => none
      | some (.error e, c) => some (.error e, c)
      | some (.ok last, c) => roundsFrom fuel last { c with rounds := c.rounds + 1 }

/-- Runs round by round until all amplifiers have halted; the result is the last signal of the
final amplifier. -/
def runFeedback (fuel : Nat) (signal : Value) (c : Chain) : Option (Except Error Int × Chain) :=
  roundsFrom fuel none (c.inject 0 [signal])

end Chain

end Intcode
