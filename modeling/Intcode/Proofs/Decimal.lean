import Intcode.Numeral
import Intcode.Text.Pieces

namespace Intcode

namespace Numeral

theorem isDigit_bounds {c : Char} (h : c.isDigit = true) : 48 ≤ c.toNat ∧ c.toNat ≤ 57 :=
  Char.isDigit_iff_toNat.mp h

theorem decimalDigit?_of_isDigit {c : Char} (h : c.isDigit = true) :
    Text.decimalDigit? c = some (c.toNat - 48) := by
  have hb := isDigit_bounds h
  simp [Text.decimalDigit?, Text.zeroDigits, hb.1, show c.toNat < 58 by omega]

theorem plainChar_of_isDigit {c : Char} (h : c.isDigit = true) : plainChar c = c := by
  have hb := isDigit_bounds h
  have hn : (Nat.digitChar (c.toNat - 48)).toNat = c.toNat := by
    rw [Nat.toNat_digitChar_of_lt_ten (by omega)]
    omega
  rw [plainChar, decimalDigit?_of_isDigit h]
  exact Char.toNat_inj.mp hn

theorem digitIn?_of_isDigit {c : Char} (h : c.isDigit = true) :
    digitIn? 10 c = some (c.toNat - '0'.toNat) := by
  have hb := isDigit_bounds h
  have hlt : c.toNat - '0'.toNat < 10 := by
    show c.toNat - 48 < 10
    omega
  simp only [digitIn?, h, if_true]
  rw [if_pos hlt]

theorem ne_of_isDigit {c d : Char} (h : c.isDigit = true) (hd : d.isDigit = false) : c ≠ d := by
  intro he
  rw [he, hd] at h
  cases h

theorem scanDigits_of_isDigit {cs : List Char} (h : ∀ c ∈ cs, c.isDigit = true) (hne : cs ≠ []) :
    scanDigits 10 true cs = some (cs.map fun c => c.toNat - '0'.toNat, []) := by
  -- The first digit is scanned in another state than those behind it.
  have hscan : ∀ cs : List Char, (∀ c ∈ cs, c.isDigit = true) →
      scanDigits 10 false cs = some (cs.map fun c => c.toNat - '0'.toNat, []) := by
    intro cs
    induction cs with
    | nil =>
      intro _
      rfl
    | cons c cs ih =>
      intro h
      have hc := h c List.mem_cons_self
      have hcs := ih fun c hc => h c (List.mem_cons_of_mem _ hc)
      have hu : c ≠ '_' := ne_of_isDigit hc rfl
      simp [scanDigits, hu, digitIn?_of_isDigit hc, hcs]
  cases cs with
  | nil => exact absurd rfl hne
  | cons c cs =>
    have hc := h c List.mem_cons_self
    have hcs := hscan cs fun c hc => h c (List.mem_cons_of_mem _ hc)
    have hu : c ≠ '_' := ne_of_isDigit hc rfl
    simp [scanDigits, hu, digitIn?_of_isDigit hc, hcs]

theorem ofDigits_toDigits (n : Nat) :
    ofDigits 10 ((Nat.toDigits 10 n).map fun c => c.toNat - '0'.toNat) = n := by
  have hfold : ∀ (cs : List Char) (init : Nat),
      (cs.map fun c => c.toNat - '0'.toNat).foldl (fun n d => n * 10 + d) init =
        Nat.ofDigitChars 10 cs init := by
    intro cs
    induction cs with
    | nil =>
      intro init
      rfl
    | cons c cs ih =>
      intro init
      rw [List.map_cons, List.foldl_cons, ih, Nat.mul_comm]
      rfl
  rw [ofDigits, hfold, Nat.ofDigitChars_ten_toDigits]

/-- The number has no more decimal digits than a numeral may have. -/
def IsShort (n : Int) : Prop := (Nat.toDigits 10 n.natAbs).length ≤ digitLimit

theorem isWritable_iff {n : Int} : isWritable n = true ↔ IsShort n := by
  unfold IsShort
  have hlength : ∀ limit, 0 < limit →
      ((Nat.toDigits 10 n.natAbs).length ≤ limit ↔ n.natAbs < Nat.pow 10 limit) :=
    fun limit hl => Nat.length_toDigits_le_iff (by omega) hl
  rw [hlength digitLimit (by decide)]
  unfold isWritable writeBound
  exact decide_eq_true_iff

theorem isWritable_of_isShort {cells : List Int} (h : ∀ n ∈ cells, IsShort n) :
    ∀ n ∈ cells, isWritable n = true := by
  intro n hn
  exact isWritable_iff.mpr (h n hn)

theorem toList_toString (n : Int) :
    (toString n).toList =
      if n < 0 then '-' :: Nat.toDigits 10 n.natAbs else Nat.toDigits 10 n.natAbs := by
  rw [Int.toString_eq_repr, Int.repr_eq_if]
  by_cases hn : n < 0
  · have habs : (-n).toNat = n.natAbs := by omega
    rw [if_neg (by omega), if_pos hn, habs, String.toList_append, Nat.toList_repr]
    rfl
  · have habs : n.toNat = n.natAbs := by omega
    rw [if_pos (by omega), if_neg hn, habs, Nat.toList_repr]

/-- The characters of a numeral that is written. -/
def isPlain (c : Char) : Bool := c.isDigit || c == '-'

theorem isPlain_of_mem_toString {n : Int} {c : Char} (h : c ∈ (toString n).toList) :
    isPlain c = true := by
  have hdigit : c ∈ Nat.toDigits 10 n.natAbs → isPlain c = true := by
    intro hc
    have hd := Nat.isDigit_of_mem_toDigits (by omega) (by omega) hc
    simp [isPlain, hd]
  rw [toList_toString] at h
  split at h
  · rcases List.mem_cons.mp h with rfl | hc
    · rfl
    · exact hdigit hc
  · exact hdigit h

theorem toString_ne_nil (n : Int) : (toString n).toList ≠ [] := by
  rw [toList_toString]
  split
  · exact List.cons_ne_nil _ _
  · exact Nat.toDigits_ne_nil

theorem plainChar_of_isPlain {c : Char} (h : isPlain c = true) : plainChar c = c := by
  rcases Bool.or_eq_true_iff.mp h with hd | hm
  · exact plainChar_of_isDigit hd
  · rw [beq_iff_eq.mp hm]
    decide

theorem ne_of_isPlain {c d : Char} (h : isPlain c = true) (hd : isPlain d = false) : c ≠ d := by
  intro he
  rw [he, hd] at h
  cases h

theorem not_mem_toString {c : Char} (hc : isPlain c = false) (n : Int) : c ∉ (toString n).toList :=
  fun h => ne_of_isPlain (isPlain_of_mem_toString h) hc rfl

theorem isBlank_of_isPlain {c : Char} (h : isPlain c = true) : Text.isBlank c = false := by
  have hrange : 45 ≤ c.toNat ∧ c.toNat ≤ 57 := by
    rcases Bool.or_eq_true_iff.mp h with hd | hm
    · have hb := isDigit_bounds hd
      omega
    · rw [beq_iff_eq.mp hm]
      decide
  simp only [Text.isBlank, Bool.or_eq_false_iff, Bool.and_eq_false_iff, decide_eq_false_iff_not,
    beq_eq_false_iff_ne]
  omega

theorem map_plainChar_toString (n : Int) :
    (toString n).toList.map plainChar = (toString n).toList := by
  have hid := List.map_congr_left fun c (hc : c ∈ (toString n).toList) =>
    plainChar_of_isPlain (isPlain_of_mem_toString hc)
  simpa using hid

theorem signed_toString (n : Int) :
    signed (toString n).toList = (decide (n < 0), Nat.toDigits 10 n.natAbs) := by
  obtain ⟨c, cs, hcs⟩ := List.exists_cons_of_ne_nil (toString_ne_nil n)
  have hc : isPlain c = true := isPlain_of_mem_toString (n := n) (hcs ▸ List.mem_cons_self)
  have hspace : c ≠ ' ' := ne_of_isPlain hc rfl
  have hdrop : (toString n).toList.dropWhile (· = ' ') = (toString n).toList := by
    rw [hcs]
    simp [hspace]
  rw [signed, map_plainChar_toString, hdrop, toList_toString]
  by_cases hn : n < 0
  · simp [hn, splitSign]
  · obtain ⟨d, ds, hds⟩ :=
      List.exists_cons_of_ne_nil (Nat.toDigits_ne_nil (n := n.natAbs) (b := 10))
    have hd : d.isDigit = true :=
      Nat.isDigit_of_mem_toDigits (by omega) (by omega) (hds ▸ List.mem_cons_self)
    have hplus : d ≠ '+' := ne_of_isDigit hd rfl
    have hminus : d ≠ '-' := ne_of_isDigit hd rfl
    simp [hn, hds, splitSign, hplus, hminus]

theorem readDigits_toDigits {n : Nat} (h : (Nat.toDigits 10 n).length ≤ digitLimit)
    (text : String) :
    readDigits text .decimal (Nat.toDigits 10 n) = .ok n := by
  have hdigits : ∀ c ∈ Nat.toDigits 10 n, c.isDigit = true := fun c hc =>
    Nat.isDigit_of_mem_toDigits (by omega) (by omega) hc
  have hscan := scanDigits_of_isDigit hdigits Nat.toDigits_ne_nil
  have hlimit : ¬ digitLimit < (Nat.toDigits 10 n).length := Nat.not_lt.mpr h
  have hvalue := ofDigits_toDigits n
  simp only [readDigits, Form.base, hscan, hvalue, List.length_map]
  simp [Form.isLimited, Form.accepts, hlimit]

theorem readDecimal_toString {n : Int} (h : isWritable n = true) :
    readDecimal (toString n).toList = .ok n := by
  have hdigits := readDigits_toDigits (isWritable_iff.mp h) (String.ofList (toString n).toList)
  rw [readDecimal, signed_toString]
  have hvalue : applySign (decide (n < 0)) n.natAbs = n := by
    by_cases hn : n < 0
    · rw [applySign, decide_eq_true hn, if_pos rfl]
      omega
    · rw [applySign, decide_eq_false hn, if_neg Bool.false_ne_true]
      omega
  simp only [hdigits, Except.map, hvalue]

end Numeral

end Intcode
