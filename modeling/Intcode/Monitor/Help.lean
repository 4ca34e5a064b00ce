import Intcode.Monitor.Command

namespace Intcode

/-- What a command does; the end of input is no topic. -/
def Verb.help? : Verb → Option String
  | .bp => some "Set breakpoint: bp <address>. No argument lists them."
  | .bpd => some "Delete breakpoint: bpd <address>  (or 'bpd all')"
  | .continue_ => some "Alias for 'run'."
  | .disasm => some <|
      "Disassemble: disasm [address] [count]\n" ++
      "        Defaults to the current pointer, 16 instructions."
  | .dump => some <|
      "Dump memory: dump [address] [count]\n" ++
      "        Defaults to the whole tape, 8 cells per row."
  | .endOfInput => none
  | .help => some "List available commands with \"help\" or detailed help with \"help cmd\"."
  | .input => some "Queue input values: input <n> [n] ..."
  | .output => some "Show all outputs produced so far."
  | .quit => some "Exit the monitor."
  | .regs => some "Show pointer, relative base and counters."
  | .run => some "Run until halt/breakpoint/input needed: run [max_steps]"
  | .setmem => some "Set memory cells: setmem <address> <value> [value] ..."
  | .status => some "Show machine, input queue and output summary."
  | .step => some "Step N instructions: step [count]"

namespace Help

def overview : String :=
  "\nDocumented commands (type help <topic>):\n" ++
  "========================================\n" ++
  "bp   c         disasm  help   output  quit  run     status\n" ++
  "bpd  continue  dump    input  q       regs  setmem  step  \n" ++
  "\nUndocumented commands:\n" ++
  "======================\n" ++
  "EOF\n"

def about (topic : String) : String :=
  if topic = "" then overview
  else ((Verb.ofName? topic).bind Verb.help?).getD ("*** No help on " ++ topic)

end Help

end Intcode
