import Intcode.Journal
import Intcode.Machine.Run

namespace Intcode

structure Device (δ : Type) extends Host δ where
  name : String
  feed : Int → δ → Except Error Unit × δ
  /-- Prepares a machine that has not executed anything yet. -/
  attach : δ → Machine → Machine := fun _ m => m

namespace Device

def abstract : Device Unit where
  name := "device"
  take s := (.error .unsupported, s)
  feed _ s := (.error .unsupported, s)

def feedAll {α δ : Type} (feed : α → δ → Except Error Unit × δ) : List α → δ → Except Error Unit × δ
  | [], d => (.ok (), d)
  | v :: rest, d =>
    match feed v d with
    | (.error e, d) => (.error e, d)
    | (.ok _, d) => feedAll feed rest d

def reached (limit : Option Int) (count : Nat) : Bool :=
  match limit with
  | none => false
  | some n => n ≤ count

def driveFrom {δ : Type} (device : Device δ) (limit : Option Int) :
    (fuel : Nat) → (count : Nat) → Machine → δ → Option (Outcome δ Nat)
  | 0, _, _, _ => none
  | fuel + 1, count, m, d =>
    if reached limit count then some ⟨.ok count, m, d⟩
    else
      match m.step device.toHost (fuel + 1) d with
      | none => none
      | some o =>
        match o.result with
        | .error e => some ⟨.error e, o.machine, o.host⟩
        | .ok none => some ⟨.ok count, o.machine, o.host⟩
        | .ok (some v) =>
          match device.feed v o.host with
          | (.error e, d) => some ⟨.error e, o.machine, d⟩
          | (.ok _, d) => driveFrom device limit fuel (count + 1) o.machine d

/-- Runs a machine against a device until it halts, or up to so many outputs; the result is the
number of outputs. The device is attached only before the first instruction. -/
def drive {δ : Type} (device : Device δ) (fuel : Nat) (limit : Option Int) (m : Machine) (d : δ) :
    Option (Outcome δ Nat) :=
  driveFrom device limit fuel 0 (if m.executed = 0 then device.attach d m else m) d

def journaled {δ : Type} (device : Device δ) : Device (δ × Journal) where
  toHost := device.toHost.journaled
  name := device.name
  feed v d :=
    let (result, inner) := device.feed v d.1
    (result, (inner, d.2))
  attach d m := device.attach d.1 m

end Device

end Intcode
