import Intcode.CommandLine.Run

namespace Intcode.CommandLine

/-- More instructions than any run can take. -/
def unlimited : Nat := Nat.pow 2 64

def readBytes (path : String) : IO (Except FileError ByteArray) := do
  try
    return .ok (← IO.FS.readBinFile path)
  catch
    | .inappropriateType _ 20 _ => return .error (.notFolder path)
    | .inappropriateType .. => return .error (.isFolder path)
    | .invalidArgument _ 36 _ => return .error (.nameTooLong path)
    | _ => return .error (.missing path)

def finish (r : Report) : IO UInt32 := do
  (← IO.getStdout).putStr r.stdout
  (← IO.getStderr).putStr r.stderr
  match r.ending with
  | .exit code => return code.toUInt32
  | .crash f => (← IO.getStderr).putStr (f.message ++ "\n")
  return 1

def flush (level : Level) (c : Console) : IO Console := do
  let out ← IO.getStdout
  out.putStr c.printed
  out.flush
  (← IO.getStderr).putStr (c.monitor.journal.render level)
  return { monitor := { c.monitor with journal := #[] } }

partial def converse (level : Level) (c : Console) : IO UInt32 := do
  let c ← flush level { c with printed := c.printed ++ Monitor.prompt }
  let read ← (← IO.getStdin).getLine
  let line := if read = "" then Monitor.endLine else dropLineFeeds read
  let (result, c) := Monitor.answer line c
  let c ← flush level c
  match result with
  | .error b => finish ⟨.crash (.ofBreakdown b), "", ""⟩
  | .ok true => return 0
  | .ok false => converse level c

def start (i : Invocation) : IO UInt32 := do
  let bytes ← readBytes i.program
  let level := shownLevel i.options
  match ProgramFile.load (fun _ => bytes) i.program with
  | .error e => finish (({ failure := some (.load e) } : Trail).toReport level)
  | .ok cells =>
    let preamble := i.preamble cells
    match startMode unlimited i.options cells with
    | none => return 1
    | some (.finished t) => finish ({ t with journal := preamble ++ t.journal }.toReport level)
    | some (.conversing c) =>
      converse level { c with monitor := { c.monitor with journal := preamble } }

def runArguments (arguments : List String) : IO UInt32 :=
  match Invocation.ofArguments arguments with
  | .error .help => finish ⟨.exit 0, usage, ""⟩
  | .error (.usage e) => finish ⟨.exit 2, "", s!"{name}: error: {e.message}\n"⟩
  | .ok i => start i

end Intcode.CommandLine

def main (arguments : List String) : IO UInt32 :=
  Intcode.CommandLine.runArguments arguments
