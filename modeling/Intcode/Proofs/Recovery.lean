import Intcode.Proofs.Disassembly

namespace Intcode

theorem Numeral.readDecimal_plus {n : Int} (hn : 0 ≤ n) (h : isWritable n = true) :
    readDecimal ('+' :: (toString n).toList) = .ok n := by
  have htext : (toString n).toList = Nat.toDigits 10 n.natAbs := by
    rw [toList_toString, if_neg (Int.not_lt.mpr hn)]
  have hplus : plainChar '+' = '+' := by decide
  have hsigned : signed ('+' :: (toString n).toList) = (false, Nat.toDigits 10 n.natAbs) := by
    rw [signed, List.map_cons, map_plainChar_toString, hplus, htext]
    rfl
  have hdigits :=
    readDigits_toDigits (isWritable_iff.mp h) (String.ofList ('+' :: (toString n).toList))
  have hvalue : applySign false n.natAbs = n := by
    rw [applySign, if_neg Bool.false_ne_true]
    omega
  rw [readDecimal, hsigned]
  simp only [hdigits, Except.map, hvalue]

namespace Opcode

def all : List Opcode :=
  [.add, .multiply, .input, .output, .jumpIfTrue, .jumpIfFalse, .lessThan, .equals,
   .adjustBase, .halt]

def ofName? (name : List Char) : Option Opcode := all.find? fun op => op.name.toList = name

theorem ofName?_name (op : Opcode) : ofName? op.name.toList = some op := by
  cases op <;> decide

end Opcode

namespace Instruction

def usedModes (i : Instruction) : List Mode := i.parameters.map i.mode

/-- The operation with these modes, and position mode where there are no more. -/
def ofModes (op : Opcode) (modes : List Mode) : Instruction :=
  ⟨op, modes.getD 0 .position, modes.getD 1 .position, modes.getD 2 .position⟩

/-- The instruction without the mode digits that it does not use. -/
def plain (i : Instruction) : Instruction := ofModes i.opcode i.usedModes

theorem parameters_of_opcode {i i' : Instruction} (h : i.opcode = i'.opcode) :
    i.parameters = i'.parameters := by
  rw [parameters, parameters, h]

theorem usedModes_plain (i : Instruction) : i.plain.usedModes = i.usedModes := by
  obtain ⟨op, mode1, mode2, mode3⟩ := i
  cases op <;> rfl

end Instruction

namespace Listing

/-- The cells that an entry shows: an instruction without unused mode digits and its operands, or
data. -/
def shownCells (memory : Memory) (address : Int) : List Int :=
  match Instruction.decode (memory.peek address) with
  | .ok i => i.plain.encode :: i.parameters.map fun k => memory.peek (address + k.offset)
  | .error _ => [memory.peek address]

def readNumber (cs : List Char) : Option Int := (Numeral.readDecimal cs).toOption

def readOperand : List Char → Option (Mode × Int)
  | '#' :: cs => (readNumber cs).map fun n => (.immediate, n)
  | '[' :: 'r' :: 'b' :: cs => (readNumber cs.dropLast).map fun n => (.relative, n)
  | '[' :: cs => (readNumber cs.dropLast).map fun n => (.position, n)
  | _ => none

def readOperands : List Char → Option (List (Mode × Int))
  | [] => some []
  | cs => ((Text.pieces ',' cs).map Text.trim).mapM readOperand

/-- Reads the cells that a text shows. -/
def recover (text : String) : Option (List Int) :=
  let name := text.toList.takeWhile (· ≠ ' ')
  let rest := text.toList.dropWhile (· ≠ ' ')
  if name = "DATA".toList then (readNumber (Text.trim rest)).map fun n => [n]
  else (Opcode.ofName? name).bind fun op => (readOperands rest).map fun operands =>
    (Instruction.ofModes op (operands.map Prod.fst)).encode :: operands.map Prod.snd

theorem readNumber_toString {n : Int} (h : Numeral.isWritable n = true) :
    readNumber (toString n).toList = some n := by
  rw [readNumber, Numeral.readDecimal_toString h]
  rfl

theorem readOperand_shown {n : Int} (h : Numeral.isWritable n = true) (mode : Mode) :
    readOperand (shown mode n).toList = some (mode, n) := by
  have hread := readNumber_toString h
  cases mode with
  | immediate =>
    have htext : (shown .immediate n).toList = '#' :: (toString n).toList := by simp [shown]
    rw [htext, readOperand, hread]
    rfl
  | position =>
    have htext :
      (shown .position n).toList = '[' :: ((toString n).toList ++ [']']) := by simp [shown]
    obtain ⟨c, cs, hcs⟩ := List.exists_cons_of_ne_nil (Numeral.toString_ne_nil n)
    have hc : Numeral.isPlain c = true :=
      Numeral.isPlain_of_mem_toString (n := n) (hcs ▸ List.mem_cons_self)
    have hletter : c ≠ 'r' := Numeral.ne_of_isPlain hc rfl
    rw [htext, readOperand]
    · rw [List.dropLast_concat, hread]
      rfl
    · intro tail he
      rw [hcs] at he
      exact hletter (List.cons.inj he).1
  | relative =>
    have htext : (shown .relative n).toList = '[' :: 'r' :: 'b' ::
        ((if n < 0 then (toString n).toList else '+' :: (toString n).toList) ++ [']']) := by
      by_cases hn : n < 0 <;> simp [shown, hn]
    rw [htext, readOperand, List.dropLast_concat]
    by_cases hn : n < 0
    · rw [if_pos hn, hread]
      rfl
    · rw [if_neg hn, readNumber, Numeral.readDecimal_plus (Int.not_lt.mp hn) h]
      rfl

/-- The text has neither blanks nor commas in it. -/
def Solid (text : String) : Prop := ∀ c ∈ text.toList, Text.isBlank c = false ∧ c ≠ ','

theorem Solid.append {s t : String} (hs : Solid s) (ht : Solid t) : Solid (s ++ t) := by
  unfold Solid
  rw [String.toList_append]
  exact List.forall_mem_append.mpr ⟨hs, ht⟩

theorem Solid.of_all {text : String}
    (h : text.toList.all (fun c => !Text.isBlank c && c != ',') = true) :
    Solid text := by
  intro c hc
  simpa using List.all_eq_true.mp h c hc

theorem solid_int (n : Int) : Solid (toString n) := by
  intro c hc
  have hplain := Numeral.isPlain_of_mem_toString hc
  exact ⟨Numeral.isBlank_of_isPlain hplain, Numeral.ne_of_isPlain hplain rfl⟩

theorem solid_shown (mode : Mode) (n : Int) : Solid (shown mode n) := by
  have hclose : Solid "]" := .of_all (by decide)
  cases mode with
  | position =>
    have hopen : Solid "[" := .of_all (by decide)
    exact (hopen.append (solid_int n)).append hclose
  | immediate =>
    have hmark : Solid "#" := .of_all (by decide)
    exact hmark.append (solid_int n)
  | relative =>
    have hopen : Solid "[rb" := .of_all (by decide)
    have hplus : Solid "+" := .of_all (by decide)
    have hsigned : Solid (if n < 0 then toString n else "+" ++ toString n) := by
      split
      · exact solid_int n
      · exact hplus.append (solid_int n)
    exact (hopen.append hsigned).append hclose

theorem trim_padded {pad text : List Char} (hp : ∀ c ∈ pad, Text.isBlank c = true)
    (ht : ∀ c ∈ text, Text.isBlank c = false) : Text.trim (pad ++ text) = text := by
  have hsurrounded := Text.trim_surrounded hp ht (fun c (hc : c ∈ []) => absurd hc List.not_mem_nil)
  rwa [List.append_nil] at hsurrounded

theorem map_trim_pieces {texts : List (List Char)} (hne : texts ≠ [])
    (h : ∀ text ∈ texts, ∀ c ∈ text, Text.isBlank c = false ∧ c ≠ ',') {pad : List Char}
    (hp : ∀ c ∈ pad, c = ' ') :
    (Text.pieces ',' (pad ++ [',', ' '].intercalate texts)).map Text.trim = texts := by
  induction texts generalizing pad with
  | nil => exact absurd rfl hne
  | cons text rest ih =>
    have htext := h text List.mem_cons_self
    have hblank : ∀ c ∈ pad, Text.isBlank c = true := fun c hc => hp c hc ▸ rfl
    have hcomma : ',' ∉ pad ++ text := by
      intro hc
      rcases List.mem_append.mp hc with hc | hc
      · cases hp _ hc
      · exact (htext _ hc).2 rfl
    have htrim : Text.trim (pad ++ text) = text := trim_padded hblank fun c hc => (htext c hc).1
    cases rest with
    | nil =>
      rw [List.intercalate_singleton, Text.pieces_of_not_mem hcomma, List.map_singleton, htrim]
    | cons next rest =>
      have hspace : ∀ c ∈ [' '], c = ' ' := by simp
      have hrest := ih (List.cons_ne_nil _ _) (fun t ht => h t (List.mem_cons_of_mem _ ht)) hspace
      have hsplit : pad ++ [',', ' '].intercalate (text :: next :: rest) =
          (pad ++ text) ++ ',' :: ([' '] ++ [',', ' '].intercalate (next :: rest)) := by
        simp [List.intercalate_cons_cons]
      rw [hsplit, Text.pieces_append _ hcomma, List.map_cons, htrim, hrest]

theorem readOperands_shown {operands : List (Mode × Int)} (hne : operands ≠ [])
    (h : ∀ o ∈ operands, Numeral.isWritable o.2 = true) {pad : List Char} (hp : ∀ c ∈ pad, c = ' ')
    (hpad : pad ≠ []) :
    readOperands (pad ++ (", ".intercalate (operands.map fun o => shown o.1 o.2)).toList) =
      some operands := by
  have htexts : (", ".intercalate (operands.map fun o => shown o.1 o.2)).toList =
      [',', ' '].intercalate (operands.map fun o => (shown o.1 o.2).toList) := by
    rw [String.toList_intercalate, List.map_map]
    rfl
  have hne' : (operands.map fun o => (shown o.1 o.2).toList) ≠ [] := by simpa using hne
  have hchars : ∀ text ∈ operands.map fun o => (shown o.1 o.2).toList,
      ∀ c ∈ text, Text.isBlank c = false ∧ c ≠ ',' := by
    intro text ht c hc
    obtain ⟨o, _, rfl⟩ := List.mem_map.mp ht
    exact solid_shown _ _ c hc
  have hpieces := map_trim_pieces hne' hchars hp
  have hread : (operands.map fun o => (shown o.1 o.2).toList).mapM readOperand = some operands := by
    clear hne hne' htexts hchars hpieces
    induction operands with
    | nil => rfl
    | cons o rest ih =>
      have ho := readOperand_shown (h o List.mem_cons_self) o.1
      have hrest := ih fun o ho => h o (List.mem_cons_of_mem _ ho)
      rw [List.map_cons, List.mapM_cons, ho, hrest]
      rfl
  rw [htexts, readOperands]
  · rw [hpieces, hread]
  · simp [hpad]

theorem name_no_space (op : Opcode) : ∀ c ∈ op.name.toList, decide (c ≠ ' ') = true := by
  apply List.all_eq_true.mp
  cases op <;> decide

theorem name_ne_data (op : Opcode) : op.name.toList ≠ "DATA".toList := by
  cases op <;> decide

theorem recover_name (op : Opcode) {rest : List Char} (h : ∀ c ∈ rest.head?, c = ' ') :
    recover (String.ofList (op.name.toList ++ rest)) = (readOperands rest).map fun operands =>
      (Instruction.ofModes op (operands.map Prod.fst)).encode :: operands.map Prod.snd := by
  have hrest : rest.takeWhile (· ≠ ' ') = [] ∧ rest.dropWhile (· ≠ ' ') = rest := by
    cases rest with
    | nil => exact ⟨rfl, rfl⟩
    | cons c cs =>
      have hc : c = ' ' := h c rfl
      simp [hc]
  unfold recover
  rw [String.toList_ofList, List.takeWhile_append_of_pos (name_no_space op),
    List.dropWhile_append_of_pos (name_no_space op), hrest.1, hrest.2, List.append_nil]
  simp only [if_neg (name_ne_data op), Opcode.ofName?_name, Option.bind_some]

theorem recover_line (op : Opcode) {operands : List (Mode × Int)}
    (h : ∀ o ∈ operands, Numeral.isWritable o.2 = true) :
    recover (line op (operands.map fun o => shown o.1 o.2)) =
      some ((Instruction.ofModes op (operands.map Prod.fst)).encode :: operands.map Prod.snd) := by
  cases operands with
  | nil =>
    have hnone : ∀ c ∈ ([] : List Char).head?, c = ' ' := nofun
    have hname := recover_name op hnone
    rw [List.append_nil, String.ofList_toList] at hname
    exact hname
  | cons o rest =>
    let pad := List.replicate (4 - op.name.length) ' ' ++ [' ']
    have hpad : ∀ c ∈ pad, c = ' ' := by
      intro c hc
      rcases List.mem_append.mp hc with hc | hc
      · exact List.eq_of_mem_replicate hc
      · exact List.mem_singleton.mp hc
    have htext : line op ((o :: rest).map fun o => shown o.1 o.2) = String.ofList (op.name.toList ++
        (pad ++ (", ".intercalate ((o :: rest).map fun o => shown o.1 o.2)).toList)) := by
      apply String.toList_inj.mp
      simp [line, Text.alignLeft, pad]
    have hread := readOperands_shown (List.cons_ne_nil o rest) h hpad (by simp [pad])
    have hhead : ∀ c ∈ (pad ++ (", ".intercalate
        ((o :: rest).map fun o => shown o.1 o.2)).toList).head?, c = ' ' := by
      intro c hc
      rw [List.head?_append_of_ne_nil _ (by simp [pad])] at hc
      exact hpad c (List.mem_of_mem_head? hc)
    rw [htext, recover_name op hhead, hread]
    rfl

theorem recover_data {n : Int} (h : Numeral.isWritable n = true) :
    recover ("DATA " ++ toString n) = some [n] := by
  have htext : ("DATA " ++ toString n).toList = "DATA".toList ++ ' ' :: (toString n).toList := by
    simp [String.toList_append]
  have hname : ∀ c ∈ "DATA".toList, decide (c ≠ ' ') = true := List.all_eq_true.mp (by decide)
  have hblank : ∀ c ∈ [' '], Text.isBlank c = true := List.all_eq_true.mp (by decide)
  have htrim : Text.trim (' ' :: (toString n).toList) = (toString n).toList :=
    trim_padded hblank fun c hc => Numeral.isBlank_of_isPlain (Numeral.isPlain_of_mem_toString hc)
  have hspace : (' ' :: (toString n).toList).takeWhile (· ≠ ' ') = [] ∧
      (' ' :: (toString n).toList).dropWhile (· ≠ ' ') = ' ' :: (toString n).toList := ⟨rfl, rfl⟩
  unfold recover
  rw [htext, List.takeWhile_append_of_pos hname, List.dropWhile_append_of_pos hname,
    hspace.1, hspace.2, List.append_nil]
  simp only [if_true, htrim, readNumber_toString h, Option.map_some]

theorem recover_entry {memory : Memory} (h : ∀ a, Numeral.isWritable (memory.peek a) = true)
    {address : Int} {text : String} {width : Nat} (he : entry memory address = .ok (text, width)) :
    recover text = some (shownCells memory address) := by
  have hentry := entry_eq h address
  unfold shownCells
  cases hd : Instruction.decode (memory.peek address) with
  | error f =>
    rw [hd] at hentry
    cases hentry.symm.trans he
    exact recover_data (h address)
  | ok i =>
    rw [hd] at hentry
    cases hentry.symm.trans he
    let shownAt : Parameter → Mode × Int := fun k => (i.mode k, memory.peek (address + k.offset))
    have hwritable : ∀ o ∈ i.parameters.map shownAt, Numeral.isWritable o.2 = true := by
      intro o ho
      obtain ⟨k, _, rfl⟩ := List.mem_map.mp ho
      exact h _
    have hline := recover_line i.opcode hwritable
    simp only [List.map_map] at hline
    exact hline

/-- Two addresses hold the same: one number that is no instruction, or instructions of one operation
whose operands have the same modes and the same cells. -/
def SameEntry (memory memory' : Memory) (address address' : Int) : Prop :=
  (memory.peek address = memory'.peek address' ∧
    ∃ f, Instruction.decode (memory.peek address) = .error f) ∨
  ∃ i i', Instruction.decode (memory.peek address) = .ok i ∧
    Instruction.decode (memory'.peek address') = .ok i' ∧ i.opcode = i'.opcode ∧
    ∀ k ∈ i.parameters, i.mode k = i'.mode k ∧
      memory.peek (address + k.offset) = memory'.peek (address' + k.offset)

section

variable {memory memory' : Memory} {address address' : Int}

theorem SameEntry.entry_eq (h : ∀ a, Numeral.isWritable (memory.peek a) = true)
    (h' : ∀ a, Numeral.isWritable (memory'.peek a) = true)
    (hs : SameEntry memory memory' address address') :
    entry memory address = entry memory' address' := by
  rw [Listing.entry_eq h, Listing.entry_eq h']
  obtain ⟨hcell, f, hf⟩ | ⟨i, i', hi, hi', hop, hk⟩ := hs
  · rw [← hcell, hf]
  · have hoperands : operands memory address i = operands memory' address' i' := by
      unfold operands
      rw [← Instruction.parameters_of_opcode hop]
      refine List.map_congr_left fun k hmem => ?_
      rw [(hk k hmem).1, (hk k hmem).2]
    rw [hi, hi']
    simp only [hop, hoperands]

theorem sameEntry_of_shownCells (h : shownCells memory address = shownCells memory' address') :
    SameEntry memory memory' address address' := by
  unfold shownCells at h
  cases hd : Instruction.decode (memory.peek address) with
  | error f =>
    rw [hd] at h
    cases hd' : Instruction.decode (memory'.peek address') with
    | error f' =>
      rw [hd'] at h
      exact .inl ⟨(List.cons.inj h).1, f, hd⟩
    | ok i' =>
      rw [hd'] at h
      rw [(List.cons.inj h).1, Instruction.decode_encode] at hd
      cases hd
  | ok i =>
    rw [hd] at h
    cases hd' : Instruction.decode (memory'.peek address') with
    | error f' =>
      rw [hd'] at h
      rw [← (List.cons.inj h).1, Instruction.decode_encode] at hd'
      cases hd'
    | ok i' =>
      rw [hd'] at h
      obtain ⟨hcode, hcells⟩ := List.cons.inj h
      have hplain : i.plain = i'.plain := by
        have hdecode := congrArg Instruction.decode hcode
        rw [Instruction.decode_encode, Instruction.decode_encode] at hdecode
        exact Except.ok.inj hdecode
      have hop : i.plain.opcode = i'.plain.opcode := congrArg Instruction.opcode hplain
      have hparameters : i.parameters = i'.parameters := Instruction.parameters_of_opcode hop
      have hmodes : i.usedModes = i'.usedModes := by
        rw [← i.usedModes_plain, hplain, i'.usedModes_plain]
      simp only [Instruction.usedModes, ← hparameters, List.map_inj_left] at hmodes hcells
      exact .inr ⟨i, i', hd, hd', hop, fun k hk => ⟨hmodes k hk, hcells k hk⟩⟩

end

theorem exists_entry {memory : Memory} (h : ∀ a, Numeral.isWritable (memory.peek a) = true)
    (address : Int) : ∃ text width, entry memory address = .ok (text, width) ∧
      (shownCells memory address).length = width := by
  have hentry := entry_eq h address
  unfold shownCells
  cases hd : Instruction.decode (memory.peek address) with
  | error f =>
    rw [hd] at hentry
    exact ⟨_, _, hentry, rfl⟩
  | ok i =>
    rw [hd] at hentry
    refine ⟨_, _, hentry, ?_⟩
    rw [List.length_cons, List.length_map]
    obtain ⟨op, mode1, mode2, mode3⟩ := i
    cases op <;> rfl

/-- Two entries have one text exactly where they hold the same, and then they are equally wide; and
the cells that an entry shows, one for each that it takes, are read back from its text. -/
theorem entry_unambiguous {memory memory' : Memory} (h : ∀ n ∈ memory.toList, Numeral.IsShort n)
    (h' : ∀ n ∈ memory'.toList, Numeral.IsShort n) (address address' : Int) :
    ∃ text width text' width', entry memory address = .ok (text, width) ∧
      entry memory' address' = .ok (text', width') ∧
      (text = text' ↔ SameEntry memory memory' address address') ∧ (text = text' → width = width') ∧
      recover text = some (shownCells memory address) ∧
        (shownCells memory address).length = width := by
  have hw := Memory.isWritable_peek h
  have hw' := Memory.isWritable_peek h'
  obtain ⟨text, width, he, hlength⟩ := exists_entry hw address
  obtain ⟨text', width', he', hlength'⟩ := exists_entry hw' address'
  have hread := recover_entry hw he
  have hcells (heq : text = text') : shownCells memory address = shownCells memory' address' := by
    rw [heq, recover_entry hw' he'] at hread
    exact (Option.some.inj hread).symm
  refine ⟨text, width, text', width', he, he', ⟨fun heq => ?_, fun hs => ?_⟩, fun heq => ?_, hread,
    hlength⟩
  · exact sameEntry_of_shownCells (hcells heq)
  · have hsame := hs.entry_eq hw hw'
    rw [he, he'] at hsame
    cases hsame
    rfl
  · rw [← hlength, ← hlength', hcells heq]

/-- Two outputs that differ in the mode digits that an output does not use. -/
theorem entry_unambiguous_unused_modes :
    let memory := Memory.ofList [204, -7]
    let memory' := Memory.ofList [99, 21204, -7]
    ((∀ n ∈ memory.toList, Numeral.IsShort n) ∧ ∀ n ∈ memory'.toList, Numeral.IsShort n) ∧
      entry memory 0 = .ok ("OUT  [rb-7]", 2) ∧ entry memory' 1 = .ok ("OUT  [rb-7]", 2) ∧
      SameEntry memory memory' 0 1 ∧ recover "OUT  [rb-7]" = some [204, -7] := by
  intro memory memory'
  have hshort {cells : List Int} (hw : cells.all Numeral.isWritable = true) :
      ∀ n ∈ (Memory.ofList cells).toList, Numeral.IsShort n := by
    intro n hn
    rw [Memory.toList_ofList] at hn
    exact Numeral.isWritable_iff.mp (List.all_eq_true.mp hw n hn)
  have h : ∀ n ∈ memory.toList, Numeral.IsShort n := hshort (by decide +kernel)
  have h' : ∀ n ∈ memory'.toList, Numeral.IsShort n := hshort (by decide +kernel)
  have hentry : entry memory 0 = .ok ("OUT  [rb-7]", 2) := by decide +kernel
  have hentry' : entry memory' 1 = .ok ("OUT  [rb-7]", 2) := by decide +kernel
  obtain ⟨text, width, text', width', he, he', hiff, _, hread, _⟩ := entry_unambiguous h h' 0 1
  cases hentry.symm.trans he
  cases hentry'.symm.trans he'
  have hcells : shownCells memory 0 = [204, -7] := by decide +kernel
  exact ⟨⟨h, h'⟩, hentry, hentry', hiff.mp rfl, hcells ▸ hread⟩

end Listing

end Intcode
