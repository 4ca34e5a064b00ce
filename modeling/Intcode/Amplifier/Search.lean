import Intcode.Amplifier.Chain

namespace Intcode

def picks {α : Type} : List α → List (α × List α)
  | [] => []
  | x :: xs => (x, xs) :: (picks xs).map fun (y, ys) => (y, x :: ys)

/-- Every choice of so many elements of a list, by position in lexicographic order. -/
def arrangements {α : Type} : Nat → List α → List (List α)
  | 0, _ => [[]]
  | n + 1, xs => (picks xs).flatMap fun (x, rest) => (arrangements n rest).map (x :: ·)

/-- Every order of a list, by position in lexicographic order. -/
def orderings {α : Type} (xs : List α) : List (List α) := arrangements xs.length xs

inductive Wiring where
  | serial
  | feedback
deriving DecidableEq, Repr

namespace Chain

def signalOf (fuel : Nat) (wiring : Wiring) (program order : List Value) (journal : Journal) :
    Option (Except Error Int × Journal) :=
  match ofPhases program order with
  | .error e => some (.error e, journal)
  | .ok c =>
    let c := { c with journal }
    match wiring with
    | .feedback => (c.runFeedback fuel (.integer 0)).map fun (result, c) => (result, c.journal)
    | .serial => (c.runSerial fuel (.integer 0)).map fun (result, c) => (result, c.journal)

abbrev Best := Int × List Value

/-- The better of what was found before and a new candidate, the former where they are equal. -/
def better (best : Option Best) (candidate : Best) : Best :=
  match best with
  | none => candidate
  | some b => if b.1 < candidate.1 then candidate else b

/-- Tries orders in turn; the first failure ends the search. -/
def searchFrom (fuel : Nat) (wiring : Wiring) (program : List Value) :
    (orders : List (List Value)) → (best : Option Best) → Journal →
    Option (Except Error Best × Journal)
  | [], none, journal => some (.error .noPhases, journal)
  | [], some best, journal => some (.ok best, journal)
  | order :: orders, best, journal =>
    match signalOf fuel wiring program order journal with
    | none => none
    | some (.error e, journal) => some (.error e, journal)
    | some (.ok signal, journal) =>
      searchFrom fuel wiring program orders (some (better best (signal, order)))
        (journal.push (.tried order signal))

def search (fuel : Nat) (wiring : Wiring) (program phases : List Value) :
    Option (Except Error Best × Journal) :=
  searchFrom fuel wiring program (orderings phases) none #[]

end Chain

end Intcode
