import Intcode.Peripheral.Basic
import Intcode.Peripheral.Grid

namespace Intcode

inductive Color where
  | black
  | white
deriving DecidableEq, Repr

structure Paint where
  color : Color
  code : Value
deriving DecidableEq, Repr

namespace Paint

def black : Paint := ⟨.black, .integer 0⟩

def white : Paint := ⟨.white, .integer 1⟩

/-- The paint with a given code: black for 0 and white for 1. -/
def ofCode? (code : Value) : Option Paint :=
  code.bit?.map fun b => ⟨if b then .white else .black, code⟩

end Paint

inductive Heading where
  | up
  | right
  | down
  | left
deriving DecidableEq, Repr

namespace Heading

def index : Heading → Nat
  | .up => 0
  | .right => 1
  | .down => 2
  | .left => 3

def dx : Heading → Int
  | .up => 0
  | .right => 1
  | .down => 0
  | .left => -1

def dy : Heading → Int
  | .up => 1
  | .right => 0
  | .down => -1
  | .left => 0

def clockwise : Heading → Heading
  | .up => .right
  | .right => .down
  | .down => .left
  | .left => .up

def counterclockwise : Heading → Heading
  | .up => .left
  | .right => .up
  | .down => .right
  | .left => .down

end Heading

inductive Turn where
  | left
  | right
deriving DecidableEq, Repr

namespace Turn

/-- The turn with a given code: left for 0 and right for 1. -/
def ofCode? (code : Value) : Option Turn :=
  code.bit?.map fun b => if b then .right else .left

def apply : Turn → Heading → Heading
  | .left, h => h.counterclockwise
  | .right, h => h.clockwise

end Turn

structure Robot where
  startPaint : Paint := .black
  position : Position := .origin
  heading : Heading := .up
  panels : Grid Paint := {}
  awaitsTurn : Bool := false
deriving DecidableEq, Repr

namespace Robot

def ofStartColor (code : Value) : Except Error Robot :=
  match Paint.ofCode? code with
  | some startPaint => .ok { startPaint }
  | none => .error (.ofComplaint (.startColor code))

def painted (r : Robot) : Nat := r.panels.size

/-- The paint on a panel: the last one painted there, else black but for the starting panel. -/
def paintAt (r : Robot) (p : Position) : Paint :=
  match r.panels.get? p with
  | some paint => paint
  | none => if p = .origin then r.startPaint else .black

def whitePanels (r : Robot) : List Position :=
  r.panels.entries.filterMap fun (p, paint) => if paint.color = .white then some p else none

def paint (r : Robot) (paint : Paint) : Robot :=
  { r with panels := r.panels.set r.position paint, awaitsTurn := true }

def move (r : Robot) (turn : Turn) : Robot :=
  let heading := turn.apply r.heading
  { r with heading, position := r.position.shift heading.dx heading.dy, awaitsTurn := false }

/-- Takes a colour and a turn by turns; a value that is neither changes nothing. -/
def feed (v : Value) (r : Robot) : Except Error Unit × Robot :=
  if r.awaitsTurn then
    match Turn.ofCode? v with
    | some turn => (.ok (), r.move turn)
    | none => (.error (.ofComplaint (.turn v)), r)
  else
    match Paint.ofCode? v with
    | some paint => (.ok (), r.paint paint)
    | none => (.error (.ofComplaint (.paintColor v)), r)

def device : Device Robot where
  name := "robot"
  take r := (.ok (r.paintAt r.position).code, r)
  feed v := feed (.integer v)

end Robot

end Intcode
