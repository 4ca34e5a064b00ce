namespace Intcode

structure Memory where
  cells : Array Int
deriving DecidableEq, Repr

namespace Memory

def ofList (cells : List Int) : Memory := ⟨cells.toArray⟩

def toList (m : Memory) : List Int := m.cells.toList

def size (m : Memory) : Nat := m.cells.size

/-- The cell at an address, 0 past the end. -/
def get (m : Memory) (a : Nat) : Int := m.cells.getD a 0

/-- The cell at any integer address, 0 on both sides of the tape. -/
def peek (m : Memory) (a : Int) : Int :=
  if a < 0 then 0 else m.get a.toNat

/-- Grows with zeros until the address is a cell. Memory is taken as unlimited: no address is too
far. -/
def cover (m : Memory) (a : Nat) : Memory :=
  if a < m.size then m else ⟨m.cells ++ Array.replicate (a + 1 - m.size) 0⟩

def set (m : Memory) (a : Nat) (v : Int) : Memory := ⟨m.cells.setIfInBounds a v⟩

@[simp] theorem toList_ofList (cells : List Int) : (ofList cells).toList = cells := by
  simp [ofList, toList]

@[simp] theorem size_ofList (cells : List Int) : (ofList cells).size = cells.length := by
  simp [ofList, size]

theorem get_eq_toList (m : Memory) (a : Nat) : m.get a = m.toList.getD a 0 := by
  simp [get, toList]

theorem get_of_size_le {m : Memory} {a : Nat} (h : m.size ≤ a) : m.get a = 0 := by
  simp only [size] at h
  simp [get, Array.getD, Nat.not_lt.mpr h]

@[simp] theorem size_cover (m : Memory) (a : Nat) : (m.cover a).size = max m.size (a + 1) := by
  simp only [cover]
  split
  next h => omega
  next h =>
    simp only [size] at h ⊢
    simp only [Array.size_append, Array.size_replicate]
    omega

@[simp] theorem get_cover (m : Memory) (a b : Nat) : (m.cover a).get b = m.get b := by
  simp only [cover]
  split
  next => rfl
  next h =>
    simp only [get_eq_toList, toList, Array.toList_append, Array.toList_replicate,
      List.getD_eq_getElem?_getD, List.getElem?_append, List.getElem?_replicate]
    split
    next => rfl
    next hb =>
      rw [List.getElem?_eq_none (by omega)]
      split <;> rfl

@[simp] theorem size_set (m : Memory) (a : Nat) (v : Int) : (m.set a v).size = m.size := by
  simp [set, size]

theorem get_set (m : Memory) (a b : Nat) (v : Int) :
    (m.set a v).get b = if a = b ∧ a < m.size then v else m.get b := by
  simp only [get_eq_toList, toList, set, size, Array.toList_setIfInBounds,
    List.getD_eq_getElem?_getD, List.getElem?_set, Array.length_toList]
  by_cases h : a = b
  · subst h
    by_cases hs : a < m.cells.size
    · simp [hs]
    · simp [hs]
  · simp [h]

end Memory

end Intcode
