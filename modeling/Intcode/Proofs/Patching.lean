import Intcode.Patch
import Intcode.Proofs.Decimal
import Intcode.Proofs.Growth
import Mathlib.Data.Finset.Lattice.Fold
import Mathlib.Order.Lattice.Nat

namespace Intcode

namespace Patch

/-- The value of the last patch of an address. -/
def last? (patches : List Patch) (address : Int) : Option Int :=
  ((patches.filter (·.address = address)).map Patch.value).getLast?

/-- The size of the least memory that has every patched cell. -/
def extent (patches : List Patch) : Nat := patches.toFinset.sup (·.address.toNat + 1)

theorem last?_cons (p : Patch) (rest : List Patch) (address : Int) :
    last? (p :: rest) address =
      (last? rest address).or (if p.address = address then some p.value else none) := by
  unfold last?
  by_cases h : p.address = address
  · rw [List.filter_cons_of_pos (by simpa using h), List.map_cons, List.getLast?_cons, if_pos h]
    cases ((rest.filter (·.address = address)).map Patch.value).getLast? <;> rfl
  · rw [List.filter_cons_of_neg (by simpa using h), if_neg h, Option.or_none]

theorem last?_ne_none {patches : List Patch} {address : Int} :
    last? patches address ≠ none ↔ ∃ p ∈ patches, p.address = address := by
  simp [last?]

theorem extent_cons (p : Patch) (rest : List Patch) :
    extent (p :: rest) = max (p.address.toNat + 1) (extent rest) := by
  rw [extent, List.toFinset_cons, Finset.sup_insert]
  rfl

theorem extent_le {patches patches' : List Patch}
    (h : ∀ p ∈ patches, ∃ p' ∈ patches', p'.address = p.address) :
    extent patches ≤ extent patches' := by
  refine Finset.sup_le fun p hp => ?_
  obtain ⟨p', hp', haddress⟩ := h p (List.mem_toFinset.mp hp)
  rw [← haddress]
  exact Finset.le_sup (f := (·.address.toNat + 1)) (List.mem_toFinset.mpr hp')

end Patch

def Memory.patch (memory : Memory) : List Patch → Memory
  | [] => memory
  | p :: rest => ((memory.cover p.address.toNat).set p.address.toNat p.value).patch rest

theorem Memory.size_patch (memory : Memory) (patches : List Patch) :
    (memory.patch patches).size = max memory.size (Patch.extent patches) := by
  induction patches generalizing memory with
  | nil => simp [patch, Patch.extent]
  | cons p rest ih => rw [patch, ih, size_set, size_cover, Patch.extent_cons, max_assoc]

theorem Memory.get_patch {patches : List Patch} (h : ∀ p ∈ patches, 0 ≤ p.address) (memory : Memory)
    (a : Nat) : (memory.patch patches).get a = (Patch.last? patches a).getD (memory.get a) := by
  induction patches generalizing memory with
  | nil => rfl
  | cons p rest ih =>
    have hp : 0 ≤ p.address := h p List.mem_cons_self
    rw [patch, ih (fun q hq => h q (List.mem_cons_of_mem p hq)), Patch.last?_cons, get_set,
      get_cover]
    cases Patch.last? rest a with
    | some v => rfl
    | none =>
      by_cases ha : p.address = a
      · have hcell : p.address.toNat = a ∧ p.address.toNat <
            (memory.cover p.address.toNat).size := by
          rw [size_cover]
          omega
        simp only [if_pos hcell, if_pos ha]
        rfl
      · have hcell : p.address.toNat ≠ a := by omega
        simp only [hcell, false_and, if_false, if_neg ha]
        rfl

namespace Machine

theorem applyPatches_of_nonneg {patches : List Patch} (h : ∀ p ∈ patches, 0 ≤ p.address)
    (m : Machine) :
    applyPatches patches m = .ok { m with memory := m.memory.patch patches } := by
  induction patches generalizing m with
  | nil => rfl
  | cons p rest ih =>
    rw [applyPatches, m.write_integer (h p List.mem_cons_self)]
    exact ih (fun q hq => h q (List.mem_cons_of_mem p hq)) _

theorem applyPatches_of_neg {patches : List Patch} {p : Patch}
    (h : patches.find? (·.address < 0) = some p) (m : Machine) :
    applyPatches patches m = .error (.ofFault (.negativeAddress p.address)) := by
  induction patches generalizing m with
  | nil => cases h
  | cons q rest ih =>
    rw [applyPatches]
    by_cases hq : q.address < 0
    · rw [List.find?_cons_of_pos (by simpa using hq)] at h
      cases h
      rw [m.write_of_neg hq]
    · rw [List.find?_cons_of_neg (by simpa using hq)] at h
      rw [m.write_integer (Int.not_lt.mp hq)]
      exact ih h _

/-- The last patch of each address makes the machine, unless an address is negative. -/
structure LastWins (cells : List Int) (patches : List Patch) : Prop where
  negative : ∀ p, patches.find? (·.address < 0) = some p → Numeral.IsShort p.address →
    ofPatched cells patches = .error (.fault (.negativeAddress p.address))
  tooLong : ∀ p, patches.find? (·.address < 0) = some p → ¬ Numeral.IsShort p.address →
    ofPatched cells patches = .error (.numeral .tooLong)
  patched : (∀ p ∈ patches, 0 ≤ p.address) → ∃ memory : Memory,
    ofPatched cells patches = .ok { memory } ∧
      memory.size = max cells.length (Patch.extent patches) ∧
      (∀ a : Nat, memory.get a = (Patch.last? patches a).getD (cells.getD a 0)) ∧
      ∀ patches', Patch.last? patches' = Patch.last? patches →
        ofPatched cells patches' = .ok { memory }

theorem ofPatched_last_wins (cells : List Int) (patches : List Patch) : LastWins cells patches := by
  refine ⟨fun p hp hshort => ?_, fun p hp hlong => ?_, fun h => ?_⟩
  · rw [ofPatched, applyPatches_of_neg hp, Error.ofFault, Fault.isWritable,
      if_pos (Numeral.isWritable_iff.mpr hshort)]
  · rw [ofPatched, applyPatches_of_neg hp, Error.ofFault, Fault.isWritable,
      if_neg (mt Numeral.isWritable_iff.mp hlong)]
  · refine ⟨(Memory.ofList cells).patch patches, applyPatches_of_nonneg h _, ?_, fun a => ?_,
      fun patches' hlast => ?_⟩
    · rw [Memory.size_patch, Memory.size_ofList]
    · rw [Memory.get_patch h, Memory.get_eq_toList, Memory.toList_ofList]
    · have haddress {p : Patch} : (∃ q ∈ patches', q.address = p.address) ↔
          ∃ q ∈ patches, q.address = p.address := by
        rw [← Patch.last?_ne_none, ← Patch.last?_ne_none, hlast]
      have h' : ∀ p ∈ patches', 0 ≤ p.address := by
        intro p hp
        obtain ⟨q, hq, hpq⟩ := haddress.mp ⟨p, hp, rfl⟩
        exact hpq ▸ h q hq
      have hextent : Patch.extent patches' = Patch.extent patches :=
        Nat.le_antisymm (Patch.extent_le fun p hp => haddress.mp ⟨p, hp, rfl⟩)
          (Patch.extent_le fun p hp => haddress.mpr ⟨p, hp, rfl⟩)
      have hmemory :
          (Memory.ofList cells).patch patches' = (Memory.ofList cells).patch patches := by
        apply Memory.eq_of_size_get
        · rw [Memory.size_patch, Memory.size_patch, hextent]
        · funext a
          rw [Memory.get_patch h, Memory.get_patch h', hlast]
      rw [ofPatched, applyPatches_of_nonneg h', ← hmemory]
      rfl

end Machine

end Intcode
