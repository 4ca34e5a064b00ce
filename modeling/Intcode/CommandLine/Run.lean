import Intcode.Amplifier.Search
import Intcode.CommandLine.Arguments
import Intcode.CommandLine.Output
import Intcode.Monitor.Session
import Intcode.Peripheral.Cabinet
import Intcode.Peripheral.Robot
import Intcode.ProgramFile

namespace Intcode

namespace CommandLine

inductive Failure where
  | load (e : LoadError)
  | machine (e : Error)
  | index (e : IndexError)
  | blankPatch
deriving DecidableEq, Repr

def Failure.ofBreakdown : Breakdown → Failure
  | .index e => .index e
  | .notInteger value => .machine (.notInteger value)

def Failure.message : Failure → String
  | .load e => e.message
  | .machine e => e.message
  | .index e => e.message
  | .blankPatch => "not enough values to unpack (expected 2, got 0)"

/-- The last line of a failure that is reported; the other failures are crashes. -/
def Failure.report? : Failure → Option String
  | .load (.file .nullCharacter) => none
  | .load .notUtf8 => none
  | .load e => some s!"Error: {e.message}"
  | .machine (.fault f) => some s!"Intcode error: {f.message}"
  | .machine (.halted cause) => some s!"Intcode error: {(Error.halted cause).message}"
  | .machine (.inputExhausted why) => some s!"Intcode error: {why.message}"
  | .machine (.rejected c) => some s!"Intcode error: {c.message}"
  | .machine _ => none
  | .index _ => none
  | .blankPatch => none

/-- What a mode has printed and noted, and what ended it early. -/
structure Trail where
  stdout : String := ""
  journal : Journal := #[]
  failure : Option Failure := none
deriving DecidableEq, Repr

namespace Trail

/-- The trail after a line has been printed, or could not be worded. -/
def line (t : Trail) : Except NumeralError String → Trail
  | .ok s => { t with stdout := t.stdout ++ s ++ "\n" }
  | .error e => { t with failure := some (.machine (.numeral e)) }

def andThen (t : Trail) (f : Trail → Trail) : Trail :=
  if t.failure.isSome then t else f t

def fail (e : Error) (journal : Journal) : Trail :=
  { journal, failure := some (.machine e) }

end Trail

def runAmplifiers (fuel : Nat) (o : Options) (cells phases : List Int) : Option Trail :=
  let program := cells.map Value.integer
  let settings := phases.map Value.integer
  if o.search then
    let wiring := if o.feedback then Wiring.feedback else Wiring.serial
    (Chain.search fuel wiring program settings).map fun (result, journal) =>
      match result with
      | .error e => .fail e journal
      | .ok (signal, order) =>
        ({ journal } : Trail).line do
          let signal ← Numeral.write signal
          let order ← order.mapM Value.write
          return s!"Max signal: {signal}  (phases " ++ ",".intercalate order ++ ")"
  else
    match Chain.ofPhases program settings with
    | .error e => some (.fail e #[])
    | .ok c =>
      let outcome :=
        if o.feedback then c.runFeedback fuel o.signal else c.runSerial fuel o.signal
      outcome.map fun (result, c) =>
        match result with
        | .error e => .fail e c.journal
        | .ok signal =>
          ({ journal := c.journal } : Trail).line ((Numeral.write signal).map ("Signal: " ++ ·))

def runDevice {δ : Type} (device : Device δ) (fuel : Nat) (m : Machine) (d : δ)
    (lines : δ → List (Except NumeralError String)) : Option Trail :=
  (device.journaled.drive fuel none m (d, #[])).map fun o =>
    match o.result with
    | .error e => .fail e o.host.2
    | .ok count =>
      (lines o.host.1).foldl (fun t line => t.andThen (·.line line))
        { journal := o.host.2.push (.deviceHalted device.name count) }

def runPainting (fuel : Nat) (o : Options) (m : Machine) : Option Trail :=
  match Robot.ofStartColor o.startColor with
  | .error e => some (.fail e #[])
  | .ok robot =>
    runDevice Robot.device fuel m robot fun r => [.ok s!"Panels painted: {r.painted}"]

def runArcade (fuel : Nat) (o : Options) (m : Machine) : Option Trail :=
  runDevice Cabinet.device fuel m { freePlay := o.freePlay } fun c =>
    [.ok s!"Blocks: {c.count Tile.block.code}",
     (Numeral.write c.score).map ("Score: " ++ ·)]

def runBatch (fuel : Nat) (o : Options) (m : Machine) : Option Trail :=
  (m.collect Host.sequence.journaled fuel (o.inputs, #[])).map fun outcome =>
    match outcome.result with
    | .error e => .fail e outcome.host.2
    | .ok outputs =>
      let t : Trail := { journal := outcome.host.2 }
      let t := if outputs.isEmpty then t else t.line (showOutputs o.ascii outputs)
      if o.dump then
        t.andThen (·.line (ProgramText.render (outcome.machine.memory.toList.map .integer)))
      else t

def startMonitor (o : Options) (m : Machine) : Console :=
  { monitor := { machine := m, queue := ⟨o.inputs⟩ }
    printed := Monitor.introduction }

/-- The lines of a text; what follows the last line end is a line unless it is empty. -/
def linesOf (text : String) : List String :=
  let lines := (Text.pieces '\n' text.toList).map String.ofList
  if lines.getLast? = some "" then lines.dropLast else lines

inductive Started where
  | finished (t : Trail)
  | conversing (c : Console)
deriving DecidableEq, Repr

/-- The machine with its patches; a blank one fails once those before it are in. -/
def patchedMachine (o : Options) (cells : List Int) : Except Failure Machine :=
  match Machine.ofPatched cells o.writtenPatches with
  | .error e => .error (.machine e)
  | .ok m => if o.patches.contains none then .error .blankPatch else .ok m

def startMode (fuel : Nat) (o : Options) (cells : List Int) : Option Started :=
  match o.amplifiers with
  | some phases => (runAmplifiers fuel o cells phases).map .finished
  | none =>
    match patchedMachine o cells with
    | .error f => some (.finished { failure := some f })
    | .ok m =>
      if o.monitor then some (.conversing (startMonitor o m))
      else if o.paint then (runPainting fuel o m).map .finished
      else if o.arcade then (runArcade fuel o m).map .finished
      else (runBatch fuel o m).map .finished

/-- The trail of a mode, where the monitor answers the lines of a text. The standard streams are
taken not to fail. -/
def Started.finish (stdin : String) : Started → Trail
  | .finished t => t
  | .conversing c =>
    let (breakdown, c) := Monitor.converse (linesOf stdin) c
    { stdout := c.printed
      journal := c.monitor.journal
      failure := breakdown.map .ofBreakdown }

inductive Ending where
  | exit (code : Nat)
  | crash (f : Failure)
deriving DecidableEq, Repr

structure Report where
  ending : Ending
  stdout : String
  stderr : String
deriving DecidableEq, Repr

/-- The least level that is shown, where the environment does not name another. -/
def shownLevel (o : Options) : Level :=
  match o.verbosity with
  | 0 => .warning
  | 1 => .info
  | _ => .debug

/-- Reports a trail: a failure is worded after the journal, or else it is a crash. -/
def Trail.toReport (t : Trail) (level : Level) : Report :=
  let log := t.journal.render level
  match t.failure with
  | none => ⟨.exit 0, t.stdout, log⟩
  | some f =>
    match f.report? with
    | some s => ⟨.exit 1, t.stdout, log ++ s ++ "\n"⟩
    | none => ⟨.crash f, t.stdout, log⟩

def Invocation.preamble (i : Invocation) (cells : List Int) : Journal :=
  #[.loaded cells.length i.program]

def Invocation.trail (i : Invocation) (fuel : Nat) (read : String → Except FileError ByteArray)
    (stdin : String) : Option Trail :=
  match ProgramFile.load read i.program with
  | .error e => some { failure := some (.load e) }
  | .ok cells =>
    (startMode fuel i.options cells).map fun started =>
      let t := started.finish stdin
      { t with journal := i.preamble cells ++ t.journal }

def name : String := "intcode"

/-- A summary in words of its own. -/
def usage : String :=
  s!"usage: {name} PROGRAM [-i N] [--set ADDR=VAL] [--ascii] [--dump]\n" ++
  s!"       {name} PROGRAM --amplifiers P,P,... [--feedback] [--search] [--signal N]\n" ++
  s!"       {name} PROGRAM --paint [--start-color N]\n" ++
  s!"       {name} PROGRAM --arcade [--free-play]\n" ++
  s!"       {name} PROGRAM --monitor [-i N] [--set ADDR=VAL]\n"

/-- Runs the command line on its arguments, given how files are read and the standard input. The
standard streams are taken not to fail, and a usage error is reported without a summary. -/
def run (fuel : Nat) (read : String → Except FileError ByteArray) (arguments : List String)
    (stdin : String) : Option Report :=
  match Invocation.ofArguments arguments with
  | .error .help => some ⟨.exit 0, usage, ""⟩
  | .error (.usage e) => some ⟨.exit 2, "", s!"{name}: error: {e.message}\n"⟩
  | .ok i => (i.trail fuel read stdin).map fun t => t.toReport (shownLevel i.options)

end CommandLine

end Intcode
