import Intcode.CommandLine.Run
import Intcode.Proofs.Decimal

namespace Intcode

/-- The text has no line end in it. -/
def FitsLine (s : String) : Prop := '\n' ∉ s.toList

instance (s : String) : Decidable (FitsLine s) := inferInstanceAs (Decidable ('\n' ∉ s.toList))

theorem FitsLine.append {s t : String} (hs : FitsLine s) (ht : FitsLine t) : FitsLine (s ++ t) := by
  intro h
  rw [String.toList_append] at h
  rcases List.mem_append.mp h with h | h
  · exact hs h
  · exact ht h

theorem fitsLine_int (n : Int) : FitsLine (toString n) := Numeral.not_mem_toString rfl n

theorem fitsLine_nat (n : Nat) : FitsLine (toString n) := fitsLine_int n

namespace Text

theorem not_mem_toDigits (n : Nat) : '\n' ∉ Nat.toDigits 16 n := by
  induction n using Nat.strongRecOn with
  | ind n ih =>
    have hdigit : ∀ k : Nat, '\n' ≠ k.digitChar := fun k => (Nat.digitChar_ne '\n' (by decide)).symm
    rw [Nat.toDigits_eq_if (by omega)]
    split
    next => exact fun h => hdigit n (List.mem_singleton.mp h)
    next hn =>
      have hrest := ih (n / 16) (by omega)
      have hlast := hdigit (n % 16)
      simp [hrest, hlast]

theorem not_mem_hexDigits (width n : Nat) : '\n' ∉ hexDigits width n := by
  intro h
  rcases List.mem_append.mp h with h | h
  · have hzero := List.eq_of_mem_replicate h
    cases hzero
  · exact not_mem_toDigits n h

theorem not_mem_escapeChar {quote : Char} (hq : quote ≠ '\n') (c : Char) :
    '\n' ∉ escapeChar quote c := by
  have hhex := not_mem_hexDigits
  unfold escapeChar
  by_cases hmark : c = quote ∨ c = '\\'
  · have hc : '\n' ≠ c := by
      rintro rfl
      rcases hmark with h | h
      · exact hq h.symm
      · cases h
    simp [hmark, hc]
  · by_cases hn : c = '\n'
    · simp [hn, Ne.symm hq]
    · simp only [Bool.or_eq_true, decide_eq_true_eq, hmark, hn, if_false]
      have hc : '\n' ≠ c := Ne.symm hn
      split
      · simp
      · split
        · simp
        · split
          · simpa using hc
          · split
            · simp [hhex]
            · split <;> simp [hhex]

theorem fitsLine_quote (s : String) : FitsLine (quote s) := by
  have hmark : ∀ cs, quoteMark cs ≠ '\n' := by
    intro cs
    unfold quoteMark
    split <;> decide
  intro h
  rw [quote, String.toList_ofList, quoteChars] at h
  rcases List.mem_append.mp h with h | h
  · rcases List.mem_cons.mp h with h | h
    · exact hmark _ h.symm
    · obtain ⟨c, _, hc⟩ := List.mem_flatMap.mp h
      exact not_mem_escapeChar (hmark _) c hc
  · exact hmark _ (List.mem_singleton.mp h).symm

end Text

theorem FileError.fitsLine (e : FileError) : FitsLine e.message := by
  cases e with
  | nullCharacter => decide
  | missing path => exact .append (by decide) (Text.fitsLine_quote path)
  | isFolder path => exact .append (by decide) (Text.fitsLine_quote path)
  | notFolder path => exact .append (by decide) (Text.fitsLine_quote path)
  | nameTooLong path => exact .append (by decide) (Text.fitsLine_quote path)

theorem BadToken.fitsLine (b : BadToken) : FitsLine b.message := by
  have htoken := Text.fitsLine_quote b.token
  have hposition := fitsLine_nat b.position
  exact .append (.append (.append (by decide) htoken) (by decide)) hposition

theorem Fault.fitsLine (f : Fault) : FitsLine f.message := by
  cases f with
  | unknownOpcode cell => exact .append (by decide) (fitsLine_int cell)
  | unknownMode digit => exact .append (by decide) (fitsLine_nat digit)
  | illegalDestination => decide
  | negativeAddress address => exact .append (by decide) (fitsLine_int address)

theorem Exhaustion.fitsLine (why : Exhaustion) : FitsLine why.message := by
  cases why <;> decide

theorem fitsLine_halted (cause : Option Fault) : FitsLine (Error.halted cause).message := by
  cases cause with
  | none => decide
  | some f => exact .append (by decide) f.fitsLine

/-- The values that a complaint names are numbers, or the list that stands for a missing value. -/
inductive Complaint.Plain : Complaint → Prop
  | noStartColor : Plain (.startColor .emptyList)
  | startColor (n : Int) : Plain (.startColor (.integer n))
  | paintColor (n : Int) : Plain (.paintColor (.integer n))
  | turn (n : Int) : Plain (.turn (.integer n))
  | tile (v x y : Int) : Plain (.tile v x y)

theorem Complaint.Plain.fitsLine {c : Complaint} (h : c.Plain) : FitsLine c.message := by
  cases h with
  | noStartColor => decide
  | startColor n => exact .append (by decide) (fitsLine_int n)
  | paintColor n => exact .append (by decide) (fitsLine_int n)
  | turn n => exact .append (by decide) (fitsLine_int n)
  | tile v x y =>
    have hv := fitsLine_int v
    have hx := fitsLine_int x
    have hy := fitsLine_int y
    exact .append (.append (.append (.append (.append (.append (by decide) hv) (by decide)) hx)
      (by decide)) hy) (by decide)

/-- An error that is no complaint, or a complaint whose values are plain. -/
def Error.Plain (e : Error) : Prop := ∀ c, e = .rejected c → c.Plain

namespace CommandLine

/-- The failures that the command line reports: a file that cannot be read or parsed, an error of a
machine and a complaint of a device. All others are crashes. -/
inductive Failure.Reported : Failure → Prop
  | file {e : FileError} (h : e ≠ .nullCharacter) : Reported (.load (.file e))
  | token (b : BadToken) : Reported (.load (.badToken b))
  | fault (f : Fault) : Reported (.machine (.fault f))
  | halted (cause : Option Fault) : Reported (.machine (.halted cause))
  | inputExhausted (why : Exhaustion) : Reported (.machine (.inputExhausted why))
  | rejected (c : Complaint) : Reported (.machine (.rejected c))

theorem Failure.reported_iff {f : Failure} : f.Reported ↔ ∃ s, f.report? = some s := by
  constructor
  · intro h
    cases h with
    | @file e he =>
      cases e with
      | nullCharacter => exact absurd rfl he
      | missing | isFolder | notFolder | nameTooLong => exact ⟨_, rfl⟩
    | token | fault | halted | inputExhausted | rejected => exact ⟨_, rfl⟩
  · rintro ⟨s, hs⟩
    cases f with
    | load e =>
      cases e with
      | file e =>
        refine .file ?_
        rintro rfl
        cases hs
      | notUtf8 => cases hs
      | badToken b => exact .token b
    | machine e =>
      cases e with
      | fault f => exact .fault f
      | halted cause => exact .halted cause
      | inputExhausted why => exact .inputExhausted why
      | rejected c => exact .rejected c
      | notInteger | numeral | noPhases | unsupported => cases hs
    | index | blankPatch => cases hs

/-- A report is one line that says where the failure comes from. -/
structure ReportLine (s : String) : Prop where
  fits : FitsLine s
  start : "Error: ".toList <+: s.toList ∨ "Intcode error: ".toList <+: s.toList

theorem ReportLine.of_error {message : String} (h : FitsLine message) :
    ReportLine s!"Error: {message}" := by
  refine ⟨.append (by decide) h, .inl ?_⟩
  exact ⟨message.toList, String.toList_append.symm⟩

theorem ReportLine.of_intcode_error {message : String} (h : FitsLine message) :
    ReportLine s!"Intcode error: {message}" := by
  refine ⟨.append (by decide) h, .inr ?_⟩
  exact ⟨message.toList, String.toList_append.symm⟩

theorem Failure.report_line {f : Failure} {s : String} (h : f.report? = some s)
    (hp : ∀ e, f = .machine e → e.Plain) : ReportLine s := by
  cases Failure.reported_iff.mpr ⟨s, h⟩ with
  | @file e he =>
    have hs : s!"Error: {e.message}" = s := by
      cases e with
      | nullCharacter => exact absurd rfl he
      | missing | isFolder | notFolder | nameTooLong => exact Option.some.inj h
    exact hs ▸ .of_error e.fitsLine
  | token b => exact Option.some.inj h ▸ .of_error b.fitsLine
  | fault f => exact Option.some.inj h ▸ .of_intcode_error f.fitsLine
  | halted cause => exact Option.some.inj h ▸ .of_intcode_error (fitsLine_halted cause)
  | inputExhausted why => exact Option.some.inj h ▸ .of_intcode_error why.fitsLine
  | rejected c => exact Option.some.inj h ▸ .of_intcode_error (hp _ rfl c rfl).fitsLine

end CommandLine

end Intcode
