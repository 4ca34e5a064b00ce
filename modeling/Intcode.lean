import Intcode.Amplifier.Chain
import Intcode.Amplifier.Phases
import Intcode.Amplifier.Search
import Intcode.CommandLine.Arguments
import Intcode.CommandLine.Options
import Intcode.CommandLine.Output
import Intcode.CommandLine.Run
import Intcode.Error
import Intcode.Instruction
import Intcode.Journal
import Intcode.Listing
import Intcode.Machine.Basic
import Intcode.Machine.Execute
import Intcode.Machine.Run
import Intcode.Main
import Intcode.Memory
import Intcode.Monitor.Command
import Intcode.Monitor.Console
import Intcode.Monitor.Editing
import Intcode.Monitor.Execution
import Intcode.Monitor.Help
import Intcode.Monitor.Inspection
import Intcode.Monitor.Session
import Intcode.Numeral
import Intcode.Patch
import Intcode.Peripheral.Basic
import Intcode.Peripheral.Cabinet
import Intcode.Peripheral.Grid
import Intcode.Peripheral.Robot
import Intcode.ProgramFile
import Intcode.ProgramText
import Intcode.Proofs.Accounts
import Intcode.Proofs.Arguments
import Intcode.Proofs.Attempts
import Intcode.Proofs.Command
import Intcode.Proofs.Complaints
import Intcode.Proofs.Coverage
import Intcode.Proofs.Decimal
import Intcode.Proofs.Decoding
import Intcode.Proofs.Delivery
import Intcode.Proofs.Dialogue
import Intcode.Proofs.Disassembly
import Intcode.Proofs.Drivers
import Intcode.Proofs.Dump
import Intcode.Proofs.Endurance
import Intcode.Proofs.Executions
import Intcode.Proofs.Exit
import Intcode.Proofs.Failure
import Intcode.Proofs.Fatal
import Intcode.Proofs.Feedback
import Intcode.Proofs.Footprint
import Intcode.Proofs.Framing
import Intcode.Proofs.Growth
import Intcode.Proofs.History
import Intcode.Proofs.Indifference
import Intcode.Proofs.Layout
import Intcode.Proofs.Ledger
import Intcode.Proofs.Literal
import Intcode.Proofs.Lockstep
import Intcode.Proofs.Malformed
import Intcode.Proofs.Modes
import Intcode.Proofs.Move
import Intcode.Proofs.OneShot
import Intcode.Proofs.Orderings
import Intcode.Proofs.Overlay
import Intcode.Proofs.Overreach
import Intcode.Proofs.Padding
import Intcode.Proofs.Painting
import Intcode.Proofs.Patching
import Intcode.Proofs.Path
import Intcode.Proofs.Progress
import Intcode.Proofs.Reading
import Intcode.Proofs.Record
import Intcode.Proofs.Recovery
import Intcode.Proofs.Reference
import Intcode.Proofs.Rejection
import Intcode.Proofs.Replay
import Intcode.Proofs.Resumption
import Intcode.Proofs.RoundTrip
import Intcode.Proofs.Schedule
import Intcode.Proofs.Search
import Intcode.Proofs.Serial
import Intcode.Proofs.Settings
import Intcode.Proofs.Status
import Intcode.Proofs.Stepping
import Intcode.Proofs.Stopping
import Intcode.Proofs.Tally
import Intcode.Proofs.Tape
import Intcode.Proofs.Trails
import Intcode.Proofs.Transparency
import Intcode.Proofs.Turns
import Intcode.Proofs.Wording
import Intcode.Queue
import Intcode.Text.Blank
import Intcode.Text.Column
import Intcode.Text.DecimalDigit
import Intcode.Text.Lowercase
import Intcode.Text.Pieces
import Intcode.Text.Printable
import Intcode.Text.Quoted
import Intcode.Text.Words
import Intcode.Value
