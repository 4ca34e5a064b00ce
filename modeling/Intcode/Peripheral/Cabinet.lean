import Intcode.Peripheral.Basic
import Intcode.Peripheral.Grid

namespace Intcode

inductive Tile where
  | empty
  | wall
  | block
  | paddle
  | ball
deriving DecidableEq, Repr

namespace Tile

def code : Tile → Int
  | .empty => 0
  | .wall => 1
  | .block => 2
  | .paddle => 3
  | .ball => 4

def ofCode? (n : Int) : Option Tile :=
  [empty, wall, block, paddle, ball].find? (·.code = n)

end Tile

inductive OpenTriple where
  | none
  | column (x : Int)
  | place (x y : Int)
deriving DecidableEq, Repr

structure Cabinet where
  freePlay : Bool := false
  screen : Grid Tile := {}
  score : Int := 0
  ball : Option Position := none
  paddle : Option Position := none
  pending : OpenTriple := .none
deriving DecidableEq, Repr

namespace Cabinet

/-- A triple that starts with this position sets the score. -/
def scorePosition : Position := ⟨-1, 0⟩

/-- The cell that holds the number of coins, and the value that makes the game free. -/
def coinAddress : Int := 0

def freeCoins : Int := 2

def count (c : Cabinet) (code : Int) : Nat :=
  c.screen.entries.countP fun (_, tile) => tile.code = code

def joystick (c : Cabinet) : Int :=
  match c.ball, c.paddle with
  | some ball, some paddle =>
    if ball.x < paddle.x then -1 else if paddle.x < ball.x then 1 else 0
  | _, _ => 0

def draw (c : Cabinet) (p : Position) (tile : Tile) : Cabinet :=
  { c with
    screen := c.screen.set p tile
    ball := if tile = .ball then some p else c.ball
    paddle := if tile = .paddle then some p else c.paddle }

/-- Takes a whole triple; an unknown tile changes nothing. -/
def takeTriple (c : Cabinet) (x y v : Int) : Except Error Unit × Cabinet :=
  if (⟨x, y⟩ : Position) = scorePosition then (.ok (), { c with score := v })
  else
    match Tile.ofCode? v with
    | some tile => (.ok (), c.draw ⟨x, y⟩ tile)
    | none => (.error (.ofComplaint (.tile v x y)), c)

def feed (v : Int) (c : Cabinet) : Except Error Unit × Cabinet :=
  match c.pending with
  | .none => (.ok (), { c with pending := .column v })
  | .column x => (.ok (), { c with pending := .place x v })
  | .place x y => { c with pending := .none }.takeTriple x y v

/-- In free play the coins are put in before the program starts. -/
def insertCoins (c : Cabinet) (m : Machine) : Machine :=
  if c.freePlay then (m.write coinAddress (.integer freeCoins)).2 else m

def device : Device Cabinet where
  name := "arcade"
  take c := (.ok (.integer c.joystick), c)
  feed := feed
  attach := insertCoins

end Cabinet

end Intcode
