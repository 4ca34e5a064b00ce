import Intcode.Amplifier.Phases
import Intcode.Patch

namespace Intcode

namespace CommandLine

inductive Switch where
  | help
  | ascii
  | dump
  | feedback
  | search
  | paint
  | arcade
  | freePlay
  | monitor
  | verbose
deriving DecidableEq, Repr

inductive Setting where
  | input
  | patch
  | amplifiers
  | signal
  | startColor
deriving DecidableEq, Repr

inductive Flag where
  | switch (s : Switch)
  | setting (s : Setting)
deriving DecidableEq, Repr

namespace Flag

def names : List (String × Flag) :=
  [("-h", .switch .help), ("--help", .switch .help),
   ("-i", .setting .input), ("--input", .setting .input),
   ("--set", .setting .patch),
   ("--ascii", .switch .ascii),
   ("--dump", .switch .dump),
   ("--amplifiers", .setting .amplifiers),
   ("--feedback", .switch .feedback),
   ("--search", .switch .search),
   ("--signal", .setting .signal),
   ("--paint", .switch .paint),
   ("--start-color", .setting .startColor),
   ("--arcade", .switch .arcade),
   ("--free-play", .switch .freePlay),
   ("--monitor", .switch .monitor),
   ("-v", .switch .verbose), ("--verbose", .switch .verbose)]

def ofName? (name : String) : Option Flag := names.lookup name

def label (f : Flag) : String :=
  "/".intercalate ((names.filter fun (_, g) => g = f).map (·.1))

end Flag

inductive UsageError where
  | ambiguous (text : String) (names : List String)
  | missingValue (s : Setting)
  | ignoredValue (s : Switch) (text : String)
  | invalidValue (s : Setting) (text : String)
  | invalidStartColor (n : Int)
  | missingProgram
  | unrecognized (texts : List String)
  | paintWithArcade
  | inputsNotAllowed
  | patchesNotAllowed
deriving DecidableEq, Repr

def Setting.complaint (text : String) : Setting → String
  | .input => s!"invalid <lambda> value: {Text.quote text}"
  | .patch => s!"expected ADDR=VAL, got {Text.quote text}"
  | .amplifiers => s!"bad phase list {Text.quote text}"
  | .signal => s!"invalid int value: {Text.quote text}"
  | .startColor => s!"invalid int value: {Text.quote text}"

def UsageError.message : UsageError → String
  | .ambiguous text names =>
    s!"ambiguous option: {text} could match " ++ ", ".intercalate names
  | .missingValue s => s!"argument {(Flag.setting s).label}: expected one argument"
  | .ignoredValue s text =>
    s!"argument {(Flag.switch s).label}: ignored explicit argument {Text.quote text}"
  | .invalidValue s text => s!"argument {(Flag.setting s).label}: {s.complaint text}"
  | .invalidStartColor n =>
    s!"argument {(Flag.setting .startColor).label}: invalid choice: {n} (choose from 0, 1)"
  | .missingProgram => "the following arguments are required: program"
  | .unrecognized texts => "unrecognized arguments: " ++ " ".intercalate texts
  | .paintWithArcade => "--paint and --arcade are exclusive"
  | .inputsNotAllowed => "-i/--input only applies to batch runs and --monitor"
  | .patchesNotAllowed => "--set does not apply to --amplifiers"

/-- What has been asked for. A value given as `--` stands for none: an input, the signal or the
starting colour is then an empty list, a patch is blank and the list of phase settings is empty. -/
structure Options where
  inputs : List Value := []
  patches : List (Option Patch) := []
  ascii : Bool := false
  dump : Bool := false
  amplifiers : Option (List Int) := none
  feedback : Bool := false
  search : Bool := false
  signal : Value := .integer 0
  paint : Bool := false
  startColor : Value := .integer 0
  arcade : Bool := false
  freePlay : Bool := false
  monitor : Bool := false
  verbosity : Nat := 0
deriving DecidableEq, Repr

namespace Options

def turnOn (o : Options) : Switch → Options
  | .help => o
  | .ascii => { o with ascii := true }
  | .dump => { o with dump := true }
  | .feedback => { o with feedback := true }
  | .search => { o with search := true }
  | .paint => { o with paint := true }
  | .arcade => { o with arcade := true }
  | .freePlay => { o with freePlay := true }
  | .monitor => { o with monitor := true }
  | .verbose => { o with verbosity := o.verbosity + 1 }

def giveNone (o : Options) : Setting → Options
  | .input => { o with inputs := o.inputs ++ [.emptyList] }
  | .patch => { o with patches := o.patches ++ [none] }
  | .amplifiers => { o with amplifiers := some [] }
  | .signal => { o with signal := .emptyList }
  | .startColor => { o with startColor := .emptyList }

/-- Gives a setting the value that a text stands for; inputs and patches add up. -/
def giveText (o : Options) (s : Setting) (text : String) : Except UsageError Options :=
  let bad := Except.error (.invalidValue s text)
  match s with
  | .input =>
    match Numeral.readLiteral text.toList with
    | .ok n => .ok { o with inputs := o.inputs ++ [.integer n] }
    | .error _ => bad
  | .patch =>
    match Patch.ofText? text with
    | some p => .ok { o with patches := o.patches ++ [some p] }
    | none => bad
  | .amplifiers =>
    match Phases.ofText? text with
    | some phases => .ok { o with amplifiers := some phases }
    | none => bad
  | .signal =>
    match Numeral.readDecimal text.toList with
    | .ok n => .ok { o with signal := .integer n }
    | .error _ => bad
  | .startColor =>
    match Numeral.readDecimal text.toList with
    | .ok n =>
      if n = 0 || n = 1 then .ok { o with startColor := .integer n }
        else .error (.invalidStartColor n)
    | .error _ => bad

/-- Gives a setting what is written for its value. A value `--` counts as none, as for argument
parsers before 3.11.9; later ones read it as any other text. -/
def give (o : Options) (s : Setting) (text : String) : Except UsageError Options :=
  if text = "--" then .ok (o.giveNone s) else o.giveText s text

/-- The patches up to the first blank one. -/
def writtenPatches (o : Options) : List Patch :=
  (o.patches.takeWhile Option.isSome).filterMap id

def check (o : Options) : Except UsageError Unit :=
  if o.paint && o.arcade then .error .paintWithArcade
  else if (o.paint || o.arcade || o.amplifiers.isSome) && !o.inputs.isEmpty then
    .error .inputsNotAllowed
  else if o.amplifiers.isSome && !o.patches.isEmpty then .error .patchesNotAllowed
  else .ok ()

end Options

end CommandLine

end Intcode
