import Intcode.Text.Blank

namespace Intcode

inductive Verb where
  | bp
  | bpd
  | continue_
  | disasm
  | dump
  | endOfInput
  | help
  | input
  | output
  | quit
  | regs
  | run
  | setmem
  | status
  | step
deriving DecidableEq, Repr

/-- The verb of a name; two verbs have a short name besides. -/
def Verb.ofName? : String → Option Verb
  | "bp" => some .bp
  | "bpd" => some .bpd
  | "c" => some .continue_
  | "continue" => some .continue_
  | "disasm" => some .disasm
  | "dump" => some .dump
  | "EOF" => some .endOfInput
  | "help" => some .help
  | "input" => some .input
  | "output" => some .output
  | "q" => some .quit
  | "quit" => some .quit
  | "regs" => some .regs
  | "run" => some .run
  | "setmem" => some .setmem
  | "status" => some .status
  | "step" => some .step
  | _ => none

inductive Command where
  | nothing
  | unknown (line : String)
  | call (verb : Verb) (argument : String)
deriving DecidableEq, Repr

namespace Command

def isNameChar (c : Char) : Bool := c.isAlphanum || c = '_'

def ofWords (line : List Char) : Command :=
  let name := String.ofList (line.takeWhile isNameChar)
  match Verb.ofName? name with
  | some verb => .call verb (String.ofList (Text.trim (line.dropWhile isNameChar)))
  | none => .unknown (String.ofList line)

/-- Reads a line; a question mark at its start asks for help. -/
def ofLine (line : String) : Command :=
  match Text.trim line.toList with
  | [] => .nothing
  | '?' :: rest => ofWords ("help ".toList ++ rest)
  | line => ofWords line

end Command

end Intcode
