import Intcode.Error
import Mathlib.Tactic.IntervalCases

namespace Intcode

namespace Opcode

/-- Tells the numbers that stand for an operation. -/
def IsCode (n : Nat) : Prop := (1 ≤ n ∧ n ≤ 9) ∨ n = 99

theorem isCode_code (op : Opcode) : IsCode op.code := by
  cases op <;> simp [IsCode, code]

theorem ofCode?_of_isCode {n : Nat} (h : IsCode n) : ∃ op, ofCode? n = some op := by
  obtain ⟨hlow, hhigh⟩ | rfl := h
  · interval_cases n <;> exact ⟨_, rfl⟩
  · exact ⟨.halt, rfl⟩

theorem ofCode?_eq_none {n : Nat} : ofCode? n = none ↔ ¬ IsCode n := by
  constructor
  · intro hnone hcode
    obtain ⟨op, hop⟩ := ofCode?_of_isCode hcode
    simp [hop] at hnone
  · intro hcode
    by_contra hsome
    obtain ⟨op, hop⟩ := Option.ne_none_iff_exists'.mp hsome
    exact hcode (code_of_ofCode? hop ▸ isCode_code op)

end Opcode

namespace Mode

theorem digit_le (m : Mode) : m.digit ≤ 2 := by
  cases m <;> simp [digit]

theorem ofDigit?_of_le {n : Nat} (h : n ≤ 2) : ∃ m, ofDigit? n = some m := by
  interval_cases n <;> exact ⟨_, rfl⟩

theorem ofDigit?_of_lt {n : Nat} (h : 2 < n) : ofDigit? n = none := by
  by_contra hsome
  obtain ⟨m, hm⟩ := Option.ne_none_iff_exists'.mp hsome
  have hle := m.digit_le
  rw [digit_of_ofDigit? hm] at hle
  omega

end Mode

namespace Instruction

/-- The decimal digit of a number at a place, counted from the units at place 0. -/
def digitAt (n place : Nat) : Nat := n / 10 ^ place % 10

/-- A digit is wrong where the modes stand if it is no mode, and above them if it is not zero. -/
def WrongAt (n place : Nat) : Prop :=
  (2 ≤ place ∧ place < 5 ∧ 2 < digitAt n place) ∨ (5 ≤ place ∧ digitAt n place ≠ 0)

/-- The lowest place with a wrong digit. -/
def LowestWrong (n place : Nat) : Prop := WrongAt n place ∧ ∀ lower < place, ¬ WrongAt n lower

theorem digitAt_div (n k place : Nat) : digitAt (n / 10 ^ k) place = digitAt n (k + place) := by
  rw [digitAt, digitAt, Nat.div_div_eq_div_mul, ← Nat.pow_add]

theorem decodeMode_of_le {digit : Nat} (h : digit ≤ 2) :
    ∃ m, decodeMode digit = .ok m ∧ m.digit = digit := by
  obtain ⟨m, hm⟩ := Mode.ofDigit?_of_le h
  exact ⟨m, by simp [decodeMode, hm], Mode.digit_of_ofDigit? hm⟩

theorem decodeMode_of_lt {digit : Nat} (h : 2 < digit) :
    decodeMode digit = .error (.unknownMode digit) := by
  simp [decodeMode, Mode.ofDigit?_of_lt h]

theorem lowestDigit_at {n : Nat} (hn : n ≠ 0) :
    ∃ place, digitAt n place = lowestDigit n ∧ digitAt n place ≠ 0 ∧
      ∀ lower < place, digitAt n lower = 0 := by
  induction n using Nat.strongRecOn with
  | ind n ih =>
    by_cases hd : n % 10 = 0
    · have hdiv : n / 10 ≠ 0 := by omega
      obtain ⟨place, he, hne, hlow⟩ := ih (n / 10) (by omega) hdiv
      have hshift (k : Nat) : digitAt (n / 10) k = digitAt n (k + 1) := by
        rw [Nat.add_comm, ← digitAt_div n 1, Nat.pow_one]
      have hskip : lowestDigit n = lowestDigit (n / 10) := by
        rw [lowestDigit, if_neg hn, if_pos hd]
      rw [hshift] at he hne
      refine ⟨place + 1, he.trans hskip.symm, hne, ?_⟩
      intro lower hlower
      cases lower with
      | zero => simpa [digitAt] using hd
      | succ lower => exact hshift lower ▸ hlow lower (by omega)
    · refine ⟨0, ?_, by simpa [digitAt] using hd, by simp⟩
      rw [lowestDigit, if_neg hn, if_neg hd]
      simp [digitAt]

theorem lowestWrong_above {n place : Nat} (h : LowestWrong n place) (hp : 5 ≤ place) :
    n / 100000 ≠ 0 ∧ lowestDigit (n / 100000) = digitAt n place := by
  obtain ⟨hw, hlow⟩ := h
  have hshift (k : Nat) : digitAt (n / 100000) k = digitAt n (5 + k) := digitAt_div n 5 k
  have hne : digitAt n place ≠ 0 := by
    obtain ⟨_, hlt, _⟩ | ⟨_, hne⟩ := hw
    · omega
    · exact hne
  have hzero (k : Nat) (hk : 5 + k < place) : digitAt n (5 + k) = 0 := by
    by_contra hd
    exact hlow (5 + k) hk (.inr ⟨by omega, hd⟩)
  have hrest : n / 100000 ≠ 0 := by
    intro hnil
    have hd := hshift (place - 5)
    rw [hnil, show 5 + (place - 5) = place by omega] at hd
    exact hne (by simpa [digitAt] using hd.symm)
  obtain ⟨above, he, hat, hbelow⟩ := lowestDigit_at hrest
  have hplace : place = 5 + above := by
    obtain hlt | heq | hgt := Nat.lt_trichotomy place (5 + above)
    · have hd := hbelow (place - 5) (by omega)
      rw [hshift, show 5 + (place - 5) = place by omega] at hd
      exact absurd hd hne
    · exact heq
    · exact absurd (hzero above hgt) (hshift above ▸ hat)
  exact ⟨hrest, by rw [← he, hshift, hplace]⟩

theorem not_wrongAt_mode {n place : Nat} (h : ¬ WrongAt n place) (hlow : 2 ≤ place)
    (hhigh : place < 5) : digitAt n place ≤ 2 := by
  by_contra hd
  exact h (.inl ⟨hlow, hhigh, by omega⟩)

theorem decode_natCast {n : Nat} {op : Opcode} (hop : Opcode.ofCode? (n % 100) = some op) :
    decode n = (do
      let m1 ← decodeMode (digitAt n 2)
      let m2 ← decodeMode (digitAt n 3)
      let m3 ← decodeMode (digitAt n 4)
      if n / 100000 = 0 then .ok ⟨op, m1, m2, m3⟩
      else .error (.unknownMode (lowestDigit (n / 100000)))) := by
  rw [decode, if_neg (by omega)]
  simp only [Int.toNat_natCast, hop]
  rfl

/-- The lowest wrong digit is the one that is named. -/
theorem decode_of_lowestWrong {n place : Nat} (hcode : Opcode.IsCode (n % 100))
    (h : LowestWrong n place) : decode n = .error (.unknownMode (digitAt n place)) := by
  obtain ⟨op, hop⟩ := Opcode.ofCode?_of_isCode hcode
  rw [decode_natCast hop]
  have hmode (k : Nat) (hlow : 2 ≤ k) (hhigh : k < 5) (hk : k < place) :
      ∃ m, decodeMode (digitAt n k) = .ok m := by
    obtain ⟨m, hm, _⟩ := decodeMode_of_le (not_wrongAt_mode (h.2 k hk) hlow hhigh)
    exact ⟨m, hm⟩
  obtain ⟨hlow, hhigh, hd⟩ | ⟨hhigh, _⟩ := h.1
  · have hwrong := decodeMode_of_lt hd
    obtain rfl | rfl | rfl : place = 2 ∨ place = 3 ∨ place = 4 := by omega
    · rw [hwrong]
      rfl
    · obtain ⟨m1, h1⟩ := hmode 2 (by omega) (by omega) (by omega)
      rw [h1, hwrong]
      rfl
    · obtain ⟨m1, h1⟩ := hmode 2 (by omega) (by omega) (by omega)
      obtain ⟨m2, h2⟩ := hmode 3 (by omega) (by omega) (by omega)
      rw [h1, h2, hwrong]
      rfl
  · obtain ⟨m1, h1⟩ := hmode 2 (by omega) (by omega) (by omega)
    obtain ⟨m2, h2⟩ := hmode 3 (by omega) (by omega) (by omega)
    obtain ⟨m3, h3⟩ := hmode 4 (by omega) (by omega) (by omega)
    obtain ⟨hrest, hdigit⟩ := lowestWrong_above h hhigh
    rw [h1, h2, h3, hdigit]
    exact if_neg hrest

theorem decode_of_no_wrong {n : Nat} (hcode : Opcode.IsCode (n % 100))
    (h : ∀ place, ¬ WrongAt n place) : ∃ i : Instruction, i.encode = n ∧ decode n = .ok i := by
  obtain ⟨op, hop⟩ := Opcode.ofCode?_of_isCode hcode
  obtain ⟨m1, h1, hd1⟩ := decodeMode_of_le (not_wrongAt_mode (h 2) (by omega) (by omega))
  obtain ⟨m2, h2, hd2⟩ := decodeMode_of_le (not_wrongAt_mode (h 3) (by omega) (by omega))
  obtain ⟨m3, h3, hd3⟩ := decodeMode_of_le (not_wrongAt_mode (h 4) (by omega) (by omega))
  have hrest : n / 100000 = 0 := by
    by_contra hne
    obtain ⟨place, _, hnonzero, _⟩ := lowestDigit_at hne
    have hshift : digitAt (n / 100000) place = digitAt n (5 + place) := digitAt_div n 5 place
    exact h (5 + place) (.inr ⟨by omega, hshift ▸ hnonzero⟩)
  refine ⟨⟨op, m1, m2, m3⟩, ?_, ?_⟩
  · have hcode' := Opcode.code_of_ofCode? hop
    simp only [digitAt, Nat.reducePow] at hd1 hd2 hd3
    simp only [encode, hcode', hd1, hd2, hd3]
    omega
  · rw [decode_natCast hop, h1, h2, h3]
    exact if_pos hrest

theorem decode_no_operation {cell : Int}
    (h : cell < 0 ∨ ¬ Opcode.IsCode (cell % 100).toNat) :
    decode cell = .error (.unknownOpcode cell) := by
  by_cases hneg : cell < 0
  · rw [decode, if_pos hneg]
  · obtain ⟨n, rfl⟩ := Int.eq_ofNat_of_zero_le (Int.not_lt.mp hneg)
    have hcode : ¬ Opcode.IsCode (n % 100) := h.resolve_left hneg
    rw [decode, if_neg hneg]
    simp only [Int.toNat_natCast, Opcode.ofCode?_eq_none.mpr hcode]

/-- A cell has no operation, or a wrong digit, or it is an instruction packed. -/
theorem decode_cases (cell : Int) :
    (cell < 0 ∨ ¬ Opcode.IsCode (cell % 100).toNat) ∨
      ∃ n : Nat, cell = n ∧ Opcode.IsCode (n % 100) ∧
        ((∃ place, LowestWrong n place) ∨ ∃ i : Instruction, i.encode = n ∧ decode n = .ok i) := by
  by_cases hop : cell < 0 ∨ ¬ Opcode.IsCode (cell % 100).toNat
  · exact .inl hop
  · push Not at hop
    obtain ⟨n, rfl⟩ := Int.eq_ofNat_of_zero_le hop.1
    refine .inr ⟨n, rfl, hop.2, ?_⟩
    by_cases hw : ∃ place, WrongAt n place
    · classical
      exact .inl ⟨Nat.find hw, Nat.find_spec hw, fun lower hl => Nat.find_min hw hl⟩
    · exact .inr (decode_of_no_wrong hop.2 fun place hp => hw ⟨place, hp⟩)

theorem decode_encode (i : Instruction) : decode i.encode = .ok i := by
  obtain ⟨op, m1, m2, m3⟩ := i
  have h1 := m1.digit_le
  have h2 := m2.digit_le
  have h3 := m3.digit_le
  have hop : op.code < 100 := by
    obtain ⟨_, hle⟩ | heq := op.isCode_code
    · omega
    · omega
  have hmode (m : Mode) : decodeMode m.digit = .ok m := by
    rw [decodeMode, Mode.ofDigit?_digit]
  generalize hn : op.code + 100 * m1.digit + 1000 * m2.digit + 10000 * m3.digit = n
  have hcode : Opcode.ofCode? (n % 100) = some op := by
    rw [show n % 100 = op.code by omega, Opcode.ofCode?_code]
  have hd1 : digitAt n 2 = m1.digit := by
    simp only [digitAt, Nat.reducePow]
    omega
  have hd2 : digitAt n 3 = m2.digit := by
    simp only [digitAt, Nat.reducePow]
    omega
  have hd3 : digitAt n 4 = m3.digit := by
    simp only [digitAt, Nat.reducePow]
    omega
  have hencode : encode ⟨op, m1, m2, m3⟩ = n := congrArg Int.ofNat hn
  rw [hencode, decode_natCast hcode, hd1, hd2, hd3, hmode, hmode, hmode]
  exact if_pos (by omega)

theorem decode_eq_ok {cell : Int} {i : Instruction} : decode cell = .ok i ↔ i.encode = cell := by
  constructor
  · intro h
    obtain hop | ⟨n, rfl, hcode, ⟨place, hw⟩ | ⟨j, hj, hd⟩⟩ := decode_cases cell
    · cases h.symm.trans (decode_no_operation hop)
    · cases h.symm.trans (decode_of_lowestWrong hcode hw)
    · cases h.symm.trans hd
      exact hj
  · rintro rfl
    exact decode_encode i

theorem decode_eq_unknownOpcode {cell v : Int} :
    decode cell = .error (.unknownOpcode v) ↔
      v = cell ∧ (cell < 0 ∨ ¬ Opcode.IsCode (cell % 100).toNat) := by
  constructor
  · intro h
    obtain hop | ⟨n, rfl, hcode, ⟨place, hw⟩ | ⟨i, _, hd⟩⟩ := decode_cases cell
    · cases h.symm.trans (decode_no_operation hop)
      exact ⟨rfl, hop⟩
    · cases h.symm.trans (decode_of_lowestWrong hcode hw)
    · cases h.symm.trans hd
  · rintro ⟨rfl, hop⟩
    exact decode_no_operation hop

theorem decode_eq_unknownMode {cell : Int} {d : Nat} :
    decode cell = .error (.unknownMode d) ↔
      0 ≤ cell ∧ Opcode.IsCode (cell % 100).toNat ∧
        ∃ place, LowestWrong cell.toNat place ∧ d = digitAt cell.toNat place := by
  constructor
  · intro h
    obtain hop | ⟨n, rfl, hcode, ⟨place, hw⟩ | ⟨i, _, hd⟩⟩ := decode_cases cell
    · cases h.symm.trans (decode_no_operation hop)
    · cases h.symm.trans (decode_of_lowestWrong hcode hw)
      exact ⟨Int.natCast_nonneg n, hcode, place, hw, rfl⟩
    · cases h.symm.trans hd
  · rintro ⟨hpos, hcode, place, hw, rfl⟩
    obtain ⟨n, rfl⟩ := Int.eq_ofNat_of_zero_le hpos
    exact decode_of_lowestWrong hcode hw

theorem exists_encode_iff {cell : Int} {op d1 d2 d3 : Nat} :
    (∃ i : Instruction, i.encode = cell ∧ i.opcode.code = op ∧ i.mode1.digit = d1 ∧
        i.mode2.digit = d2 ∧ i.mode3.digit = d3) ↔
      Opcode.IsCode op ∧ d1 ≤ 2 ∧ d2 ≤ 2 ∧ d3 ≤ 2 ∧
        cell = op + 100 * d1 + 1000 * d2 + 10000 * d3 := by
  constructor
  · rintro ⟨i, rfl, rfl, rfl, rfl, rfl⟩
    refine ⟨i.opcode.isCode_code, i.mode1.digit_le, i.mode2.digit_le, i.mode3.digit_le, ?_⟩
    rw [encode]
    push_cast
    rfl
  · rintro ⟨hop, h1, h2, h3, rfl⟩
    obtain ⟨o, ho⟩ := Opcode.ofCode?_of_isCode hop
    obtain ⟨m1, hm1⟩ := Mode.ofDigit?_of_le h1
    obtain ⟨m2, hm2⟩ := Mode.ofDigit?_of_le h2
    obtain ⟨m3, hm3⟩ := Mode.ofDigit?_of_le h3
    obtain rfl := Opcode.code_of_ofCode? ho
    obtain rfl := Mode.digit_of_ofDigit? hm1
    obtain rfl := Mode.digit_of_ofDigit? hm2
    obtain rfl := Mode.digit_of_ofDigit? hm3
    refine ⟨⟨o, m1, m2, m3⟩, ?_, rfl, rfl, rfl, rfl⟩
    rw [encode]
    push_cast
    rfl

/-- Decoding accepts exactly the packed instructions. Of any other cell it names the cell, if that
is negative or has no operation, and else the lowest wrong digit, which is a mode greater than 2 or
a digit above the modes that is not zero. -/
theorem decode_exact (cell : Int) :
    (∀ op d1 d2 d3 : Nat,
      (∃ i, decode cell = .ok i ∧ i.opcode.code = op ∧ i.mode1.digit = d1 ∧ i.mode2.digit = d2 ∧
          i.mode3.digit = d3) ↔
        Opcode.IsCode op ∧ d1 ≤ 2 ∧ d2 ≤ 2 ∧ d3 ≤ 2 ∧
          cell = op + 100 * d1 + 1000 * d2 + 10000 * d3) ∧
    (∀ i, decode cell = .ok i ↔ i.encode = cell) ∧
    (∀ v, decode cell = .error (.unknownOpcode v) ↔
      v = cell ∧ (cell < 0 ∨ ¬ Opcode.IsCode (cell % 100).toNat)) ∧
    (∀ d, decode cell = .error (.unknownMode d) ↔
      0 ≤ cell ∧ Opcode.IsCode (cell % 100).toNat ∧
        ∃ place, LowestWrong cell.toNat place ∧ d = digitAt cell.toNat place) ∧
    ((∃ i, decode cell = .ok i) ∨ decode cell = .error (.unknownOpcode cell) ∨
      ∃ d, decode cell = .error (.unknownMode d)) ∧
    (Numeral.isWritable cell = true →
      Error.ofFault (.unknownOpcode cell) = .fault (.unknownOpcode cell)) ∧
    ∀ d, Error.ofFault (.unknownMode d) = .fault (.unknownMode d) := by
  refine ⟨fun op d1 d2 d3 => ?_, fun i => decode_eq_ok, fun v => decode_eq_unknownOpcode,
    fun d => decode_eq_unknownMode, ?_, fun hw => ?_, fun d => rfl⟩
  · simp only [decode_eq_ok]
    exact exists_encode_iff
  · obtain hop | ⟨n, rfl, hcode, ⟨place, hw⟩ | ⟨i, _, hd⟩⟩ := decode_cases cell
    · exact .inr (.inl (decode_no_operation hop))
    · exact .inr (.inr ⟨_, decode_of_lowestWrong hcode hw⟩)
    · exact .inl ⟨i, hd⟩
  · exact if_pos hw

end Instruction

end Intcode
