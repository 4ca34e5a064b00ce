import Intcode.Monitor.Editing
import Intcode.Monitor.Execution
import Intcode.Monitor.Help
import Intcode.Monitor.Inspection

namespace Intcode

namespace Session

def perform (verb : Verb) (argument : String) : Session Bool := do
  match verb with
  | .bp => breakCommand argument
  | .bpd => unbreakCommand argument
  | .continue_ => runCommand argument
  | .disasm => disassembleCommand argument
  | .dump => dumpCommand argument
  | .endOfInput => say ""
  | .help => say (Help.about argument)
  | .input => inputCommand argument
  | .output => outputCommand
  | .quit => return true
  | .regs => registersCommand
  | .run => runCommand argument
  | .setmem => setCommand argument
  | .status => statusCommand
  | .step => stepCommand argument
  return verb = .endOfInput

def carryOut : Command → Session Bool
  | .nothing => return false
  | .unknown line => do
    say ("*** Unknown syntax: " ++ line)
    return false
  | .call verb argument => perform verb argument

end Session

namespace Monitor

/-- The answer to a line: whether the session stops, and the console afterwards. Trouble is
reported on the console, unless the session breaks down. -/
def answer (line : String) (c : Console) : Except Breakdown Bool × Console :=
  match (Session.carryOut (Command.ofLine line)).run c with
  | .ok stop c => (.ok stop, c)
  | .error trouble c =>
    match trouble.breakdown? with
    | some b => (.error b, c)
    | none => (.ok false, { c with printed := c.printed ++ "Error: " ++ trouble.message ++ "\n" })

def onLine (line : String) (m : Monitor) : Except Breakdown Bool × Monitor × String :=
  let (stop, c) := answer line { monitor := m }
  (stop, c.monitor, c.printed)

def introduction : String := "\nIntcode Monitor. Type 'help' for commands, 'quit' to exit.\n\n"

def prompt : String := "IC> "

def endLine : String := "EOF"

/-- Answers lines, each after a prompt, until one stops the session; the result is the breakdown
that ended it, if one did. -/
def converse : List String → Console → Option Breakdown × Console
  | [], c =>
    match answer endLine { c with printed := c.printed ++ prompt } with
    | (.error e, c) => (some e, c)
    | (.ok _, c) => (none, c)
  | line :: rest, c =>
    match answer line { c with printed := c.printed ++ prompt } with
    | (.error e, c) => (some e, c)
    | (.ok true, c) => (none, c)
    | (.ok false, c) => converse rest c

end Monitor

end Intcode
