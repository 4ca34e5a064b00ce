import Intcode.CommandLine.Options

namespace Intcode

namespace CommandLine

/-- An argument by its shape alone. A value may be attached to an option, after an equals sign or
at once. -/
inductive Word where
  | plain (text : String)
  | separator
  | option (f : Flag) (isShort : Bool) (attached : Option (List Char))
  | unknown (text : String)
deriving DecidableEq, Repr

namespace Word

/-- Tells the texts of negative decimal numbers, which are plain though they start with a dash. -/
def isNegativeNumber (cs : List Char) : Bool :=
  let isDigit := fun c => (Text.decimalDigit? c).isSome
  match cs with
  | '-' :: rest =>
    let rest := if rest.getLast? = some '\n' then rest.dropLast else rest
    let fraction := rest.dropWhile isDigit
    match fraction with
    | [] => !rest.isEmpty
    | '.' :: digits => !digits.isEmpty && digits.all isDigit
    | _ => false
  | _ => false

/-- The options that a text may start, each with its name and the value attached to it. -/
def candidates (cs : List Char) : List (String × Flag × Option (List Char)) :=
  match cs with
  | '-' :: '-' :: _ =>
    let start := cs.takeWhile (· ≠ '=')
    let attached := match cs.dropWhile (· ≠ '=') with
      | [] => none
      | _ :: value => some value
    (Flag.names.filter fun (name, _) => start.isPrefixOf name.toList).map fun (name, f) =>
      (name, f, attached)
  | '-' :: c :: value =>
    (Flag.names.filter fun (name, _) => name.toList = ['-', c]).map fun (name, f) =>
      (name, f, some value)
  | _ => []

def isShortName (name : String) : Bool := name.length = 2

def ofText (text : String) : Except UsageError Word :=
  let cs := text.toList
  match cs with
  | '-' :: _ :: _ =>
    let start := String.ofList (cs.takeWhile (· ≠ '='))
    match Flag.ofName? text, Flag.ofName? start, cs.dropWhile (· ≠ '=') with
    | some f, _, _ => .ok (.option f (isShortName text) none)
    | none, some f, _ :: value =>
      .ok (.option f (isShortName start) (some value))
    | none, _, _ =>
      match candidates cs with
      | [(name, f, attached)] => .ok (.option f (isShortName name) attached)
      | [] => .ok (if isNegativeNumber cs || cs.contains ' ' then .plain text else .unknown text)
      | several => .error (.ambiguous text (several.map (·.1)))
  | _ => .ok (.plain text)

def ofTexts : List String → Except UsageError (List Word)
  | [] => .ok []
  | text :: rest =>
    if text = "--" then .ok (.separator :: rest.map .plain)
    else do
      let word ← ofText text
      let words ← ofTexts rest
      return word :: words

end Word

inductive WordEnd where
  | complete
  | value (s : Setting) (text : String)
  | awaitsValue (s : Setting)
deriving DecidableEq, Repr

/-- The switches of a word that goes on after a short switch, and what ends it. Each character
is the name of a short option, up to one that takes all the rest as its value, and none may be
anything else, as for argument parsers before 3.11.9. -/
def expandShort (s : Switch) : List Char → Except UsageError (List Switch × WordEnd)
  | [] => .error (.ignoredValue s "")
  | c :: rest =>
    match Flag.ofName? (String.ofList ['-', c]), rest with
    | none, _ => .error (.ignoredValue s (String.ofList (c :: rest)))
    | some (.switch s'), [] => .ok ([s, s'], .complete)
    | some (.setting t), [] => .ok ([s], .awaitsValue t)
    | some (.setting t), value => .ok ([s], .value t (String.ofList value))
    | some (.switch s'), rest =>
      (expandShort s' rest).map fun (switches, ending) => (s :: switches, ending)

def expand (f : Flag) (isShort : Bool) (attached : Option (List Char)) :
    Except UsageError (List Switch × WordEnd) :=
  match f, attached with
  | .switch s, none => .ok ([s], .complete)
  | .setting t, none => .ok ([], .awaitsValue t)
  | .setting t, some text => .ok ([], .value t (String.ofList text))
  | .switch s, some text =>
    if isShort then expandShort s text else .error (.ignoredValue s (String.ofList text))

structure Progress where
  options : Options := {}
  program : Option String := none
  extras : List String := []
deriving DecidableEq, Repr

inductive Stop where
  | help
  | usage (e : UsageError)
deriving DecidableEq, Repr

namespace Progress

def addExtra (p : Progress) (text : String) : Progress :=
  { p with extras := p.extras ++ [text] }

/-- Turns on switches in order; one that asks for help ends the reading. -/
def turnOn (p : Progress) : List Switch → Except Stop Progress
  | [] => .ok p
  | .help :: _ => .error .help
  | s :: rest => turnOn { p with options := p.options.turnOn s } rest

def give (p : Progress) (s : Setting) (text : String) : Except Stop Progress :=
  match p.options.give s text with
  | .ok options => .ok { p with options }
  | .error e => .error (.usage e)

/-- Reads words in order. The first plain word is the program, with a separator beside it; a
setting takes the plain word after it as its value. -/
def consume : List Word → Progress → Except Stop Progress
  | [], p => .ok p
  | .unknown text :: rest, p => consume rest (p.addExtra text)
  | .plain text :: rest, p =>
    if p.program.isSome then consume rest (p.addExtra text)
    else
      match rest with
      | .separator :: rest => consume rest { p with program := some text }
      | rest => consume rest { p with program := some text }
  | .separator :: rest, p =>
    match p.program, rest with
    | none, .plain text :: rest => consume rest { p with program := some text }
    | _, rest => consume rest (p.addExtra "--")
  | .option f isShort attached :: rest, p =>
    match expand f isShort attached with
    | .error e => .error (.usage e)
    | .ok (switches, ending) =>
      match ending, rest with
      | .complete, rest =>
        match p.turnOn switches with
        | .error stop => .error stop
        | .ok p => consume rest p
      | .value s text, rest =>
        match p.turnOn switches with
        | .error stop => .error stop
        | .ok p =>
          match p.give s text with
          | .error stop => .error stop
          | .ok p => consume rest p
      | .awaitsValue s, .plain text :: rest =>
        match p.turnOn switches with
        | .error stop => .error stop
        | .ok p =>
          match p.give s text with
          | .error stop => .error stop
          | .ok p => consume rest p
      | .awaitsValue s, _ => .error (.usage (.missingValue s))

end Progress

structure Invocation where
  program : String
  options : Options
deriving DecidableEq, Repr

def Invocation.ofArguments (arguments : List String) : Except Stop Invocation :=
  match Word.ofTexts arguments with
  | .error e => .error (.usage e)
  | .ok words =>
    match Progress.consume words {} with
    | .error stop => .error stop
    | .ok p =>
      match p.program with
      | none => .error (.usage .missingProgram)
      | some program =>
        if p.extras.isEmpty then
          match p.options.check with
          | .error e => .error (.usage e)
          | .ok _ => .ok ⟨program, p.options⟩
        else .error (.usage (.unrecognized p.extras))

end CommandLine

end Intcode
