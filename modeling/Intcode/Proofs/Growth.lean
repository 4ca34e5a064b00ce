import Intcode.Machine.Execute
import Mathlib.Tactic.Choose

namespace Intcode

namespace Memory

/-- Grows with zeros to so many cells, unless there are more. -/
def grow (m : Memory) (n : Nat) : Memory := ⟨m.cells ++ Array.replicate (n - m.size) 0⟩

theorem eq_of_size_get {m m' : Memory} (hs : m.size = m'.size) (hg : m.get = m'.get) : m = m' := by
  have hcells : m.cells = m'.cells := by
    apply Array.ext hs
    intro a ha ha'
    simpa [get, Array.getD, ha, ha'] using congrFun hg a
  cases m
  cases m'
  simpa using hcells

@[simp] theorem size_grow (m : Memory) (n : Nat) : (m.grow n).size = max m.size n := by
  simp only [grow, size, Array.size_append, Array.size_replicate]
  omega

theorem cover_eq_grow (m : Memory) (a : Nat) : m.cover a = m.grow (a + 1) := by
  simp only [cover]
  split
  next h => simp [grow, show a + 1 - m.size = 0 by omega]
  next => rfl

@[simp] theorem get_grow (m : Memory) (n : Nat) : (m.grow n).get = m.get := by
  cases n with
  | zero => simp [grow]
  | succ a =>
    funext b
    rw [← cover_eq_grow, get_cover]

theorem grow_grow (m : Memory) (n k : Nat) : (m.grow n).grow k = m.grow (max n k) := by
  apply eq_of_size_get
  · simp only [size_grow]
    omega
  · simp

theorem toList_grow (m : Memory) (n : Nat) :
    (m.grow n).toList = m.toList ++ List.replicate (n - m.size) 0 := by
  simp [grow, toList]

end Memory

namespace Access

variable {α β : Type}

/-- The cell that an address names. -/
def index (address : Int) : Except Fault Nat :=
  if address < 0 then .error (.negativeAddress address) else .ok address.toNat

def leave (r : Except Fault α) (memory : Memory) : EStateM.Result Fault Memory α :=
  match r with
  | .ok v => .ok v memory
  | .error f => .error f memory

/-- The access gives what a view of the cells gives and grows the memory by an extent that depends
on nothing but the cells. -/
def Views (act : Access α) (view : (Nat → Int) → Except Fault α) : Prop :=
  ∃ extent : (Nat → Int) → Nat, ∀ memory : Memory,
    act.run memory = leave (view memory.get) (memory.grow (extent memory.get))

theorem Views.of_eq {act : Access α} {view view' : (Nat → Int) → Except Fault α}
    (h : act.Views view) (he : ∀ cells, view cells = view' cells) : act.Views view' :=
  funext he ▸ h

theorem Views.pure (v : α) : Views (Pure.pure v) fun _ => .ok v :=
  ⟨fun _ => 0, fun memory => by simp [leave, Memory.grow]⟩

theorem Views.fault (f : Fault) : Views (throw f : Access α) fun _ => .error f :=
  ⟨fun _ => 0, fun memory => by simp [leave, Memory.grow]; rfl⟩

theorem Views.bind {act : Access α} {next : α → Access β} {view : (Nat → Int) → Except Fault α}
    {w : α → (Nat → Int) → Except Fault β} (h : act.Views view)
    (hn : ∀ v, (next v).Views (w v)) :
    (act >>= next).Views fun cells => view cells >>= fun v => w v cells := by
  obtain ⟨extent, he⟩ := h
  choose extentNext hen using hn
  refine ⟨fun cells => match view cells with
    | .ok v => max (extent cells) (extentNext v cells)
    | .error _ => extent cells, fun memory => ?_⟩
  rw [EStateM.run_bind, he]
  dsimp only
  cases view memory.get with
  | error f => rfl
  | ok v =>
    change (next v).run (memory.grow (extent memory.get)) = leave (w v memory.get) _
    rw [hen, Memory.get_grow, Memory.grow_grow]

theorem Views.reserve (address : Int) : (reserve address).Views fun _ => index address := by
  refine ⟨fun _ => if address < 0 then 0 else address.toNat + 1, fun memory => ?_⟩
  by_cases h : address < 0
  · simp [run_reserve, index, h, leave, Memory.grow]
  · simp [run_reserve, index, h, leave, Memory.cover_eq_grow]

theorem Views.load (address : Int) :
    (load address).Views fun cells => (index address).map cells := by
  refine ⟨fun _ => if address < 0 then 0 else address.toNat + 1, fun memory => ?_⟩
  by_cases h : address < 0
  · simp [run_load, index, h, leave, Memory.grow, Except.map]
  · simp [run_load, index, h, leave, Memory.cover_eq_grow, Except.map]

theorem Views.decode (cell : Int) : (decode cell).Views fun _ => Instruction.decode cell := by
  refine ⟨fun _ => 0, fun memory => ?_⟩
  simp only [run_decode, Memory.grow, Nat.zero_sub]
  cases Instruction.decode cell <;> simp [leave]

theorem Views.again {act : Access α} {view : (Nat → Int) → Except Fault α} (h : act.Views view)
    {v : α} {memory memory' : Memory} (hr : act.run memory = .ok v memory') :
    act.run memory' = .ok v memory' := by
  obtain ⟨extent, he⟩ := h
  have hm := hr
  rw [he] at hm
  cases hv : view memory.get with
  | error f => simp [hv, leave] at hm
  | ok w =>
    simp only [hv, leave, EStateM.Result.ok.injEq] at hm
    obtain ⟨rfl, rfl⟩ := hm
    simp [he, hv, leave, Memory.grow_grow]

theorem run_bind_ok {act : Access α} {next : α → Access β} {memory memory' : Memory} {w : β}
    (h : (act >>= next).run memory = .ok w memory') :
    ∃ v between, act.run memory = .ok v between ∧ (next v).run between = .ok w memory' := by
  rw [EStateM.run_bind] at h
  cases hr : act.run memory with
  | error f between => simp [hr] at h
  | ok v between => exact ⟨v, between, rfl, by simpa [hr] using h⟩

end Access

end Intcode
