import Intcode.Proofs.Overreach
import Intcode.Proofs.Recovery
import Intcode.Proofs.Stopping

namespace Intcode

/-- A row of a dump: where it starts, and its cells. -/
structure DumpRow where
  address : Int
  cells : List Int

/-- A row of a disassembly: where it starts, its cells, and what it makes of them. -/
structure CodeRow where
  address : Int
  width : Nat
  cells : List Int
  text : String

namespace DumpRow

def line (r : DumpRow) : Except Trouble String :=
  (Monitor.written r.address).map fun address =>
    s!"  {Text.alignRight 6 address}: " ++ " ".intercalate (r.cells.map toString)

end DumpRow

namespace CodeRow

/-- The address behind the cells of a row, some of which may lie behind the end of memory. -/
def stop (r : CodeRow) : Int := r.address + r.width

def line (pc : Int) (r : CodeRow) : Except Trouble String :=
  (Monitor.written r.address).map fun address =>
    let marker := if r.address = pc then ">>>" else "   "
    let column := Text.alignLeft 24 (",".intercalate (r.cells.map toString))
    s!"  {marker} {Text.alignRight 6 address}: {column} {r.text}"

def stopOf (first : Int) : List CodeRow → Int
  | [] => first
  | r :: rows => stopOf r.stop rows

end CodeRow

namespace Memory

def stretch (m : Memory) (first : Int) (count : Nat) : List Int :=
  (Session.addresses first count).map m.peek

theorem stretch_append (m : Memory) (first : Int) (j k : Nat) :
    m.stretch first (j + k) = m.stretch first j ++ m.stretch (first + j) k := by
  unfold stretch Session.addresses
  rw [← List.map_append, List.range_add, List.map_append, List.map_map]
  congr 2
  apply List.map_congr_left
  intro i _
  simp only [Function.comp, Int.natCast_add]
  omega

@[simp] theorem stretch_length (m : Memory) (first : Int) (count : Nat) :
    (m.stretch first count).length = count := by
  simp [stretch, Session.addresses]

theorem stretch_to_end (m : Memory) {first : Int} (h : 0 ≤ first) :
    m.stretch first (m.size - first).toNat = m.toList.drop first.toNat := by
  apply List.ext_getElem?
  intro i
  have hsize : m.toList.length = m.size := rfl
  rw [List.getElem?_drop]
  unfold stretch Session.addresses
  rw [List.map_map, List.getElem?_map]
  by_cases hi : i < (m.size - first).toNat
  · have hin : first.toNat + i < m.toList.length := by omega
    have hnat : (first + (i : Int)).toNat = first.toNat + i := by omega
    rw [List.getElem?_range hi, List.getElem?_eq_getElem hin]
    simp only [Option.map_some, Function.comp]
    rw [peek_of_nonneg m (by omega), get_eq_toList, hnat, List.getD_eq_getElem?_getD,
      List.getElem?_eq_getElem hin]
    rfl
  · rw [List.getElem?_eq_none (by simpa using hi), List.getElem?_eq_none (by omega)]
    rfl

/-- The rows of a dump show so many cells from an address on. -/
structure Dumps (m : Memory) (first : Int) (count : Nat) (rows : List DumpRow) : Prop where
  address : ∀ i r, rows[i]? = some r → r.address = first + (Session.rowLength * i : Nat)
  cells : rows.flatMap DumpRow.cells = m.stretch first count
  full : ∀ i r, rows[i]? = some r → i + 1 < rows.length → r.cells.length = Session.rowLength
  bounded : ∀ r ∈ rows, r.cells ≠ [] ∧ r.cells.length ≤ Session.rowLength

/-- The rows of a disassembly of no more than so many rows show the cells from an address on. -/
structure Disassembles (m : Memory) (first : Int) (count : Nat) (rows : List CodeRow) : Prop where
  few : rows.length ≤ count
  early : rows.length < count → m.size ≤ CodeRow.stopOf first rows
  forward : first ≤ CodeRow.stopOf first rows
  start : ∀ r, rows.head? = some r → r.address = first
  next : ∀ i r r', rows[i]? = some r → rows[i + 1]? = some r' → r'.address = r.stop
  cells : rows.flatMap CodeRow.cells =
    m.stretch first (min (CodeRow.stopOf first rows) m.size - first).toNat
  entry : ∀ r ∈ rows, Listing.entry m r.address = .ok (r.text, r.width)

section

variable {m : Memory} {first : Int} {count : Nat}

theorem Dumps.nil : m.Dumps first 0 [] := ⟨nofun, rfl, nofun, nofun⟩

theorem Dumps.cons {k : Nat} {rows : List DumpRow} (hk : 0 < k) (hle : k ≤ Session.rowLength)
    (hfull : 0 < count → k = Session.rowLength)
    (h : m.Dumps (first + Session.rowLength) count rows) :
    m.Dumps first (k + count) (⟨first, m.stretch first k⟩ :: rows) := by
  constructor
  · intro i r hr
    cases i with
    | zero =>
      cases hr
      simp
    | succ i =>
      rw [h.address i r hr, Nat.mul_succ, Int.natCast_add]
      omega
  · rw [List.flatMap_cons, h.cells, stretch_append]
    rcases Nat.eq_zero_or_pos count with rfl | hpos
    · rfl
    · rw [hfull hpos]
  · intro i r hr hi
    cases i with
    | zero =>
      cases hr
      have hcount : 0 < count := by
        refine Nat.pos_of_ne_zero fun hzero => ?_
        subst hzero
        cases rows with
        | nil => exact absurd hi (by simp)
        | cons r rows =>
          have hcells := List.append_eq_nil_iff.mp h.cells
          exact (h.bounded r List.mem_cons_self).1 hcells.1
      simpa using hfull hcount
    | succ i => exact h.full i r hr (by simpa using hi)
  · intro r hr
    rcases List.mem_cons.mp hr with rfl | hr
    · refine ⟨List.ne_nil_of_length_pos ?_, ?_⟩
      · simpa using hk
      · simpa using hle
    · exact h.bounded r hr

theorem Disassembles.nil (h : 0 < count → m.size ≤ first) : m.Disassembles first count [] := by
  refine ⟨Nat.zero_le count, h, Int.le_refl first, nofun, nofun, ?_, nofun⟩
  have hnone : (min first m.size - first).toNat = 0 := by omega
  rw [CodeRow.stopOf, hnone]
  rfl

theorem Disassembles.cons {text : String} {width : Nat} {rows : List CodeRow}
    (hentry : Listing.entry m first = .ok (text, width))
    (h : m.Disassembles (first + width) count rows) :
    m.Disassembles first (count + 1)
      (⟨first, width, m.stretch first (min (first + width) m.size - first).toNat, text⟩ ::
        rows) := by
  have hforward := h.forward
  constructor
  · exact Nat.succ_le_succ h.few
  · exact fun hlt => h.early (Nat.lt_of_succ_lt_succ hlt)
  · exact Int.le_trans (by omega) h.forward
  · intro r hr
    cases hr
    rfl
  · intro i r r' hr hr'
    cases i with
    | zero =>
      cases hr
      exact h.start r' (by rwa [List.head?_eq_getElem?])
    | succ i => exact h.next i r r' hr hr'
  · -- Either the row ends within memory, or there is nothing behind it.
    rw [List.flatMap_cons, h.cells]
    simp only [CodeRow.stopOf, CodeRow.stop]
    generalize CodeRow.stopOf (first + width) rows = stop at hforward
    by_cases hend : first + width ≤ m.size
    · have hwidth : (min (first + width) m.size - first).toNat = width := by omega
      have hall : (min stop m.size - first).toNat =
          width + (min stop m.size - (first + width)).toNat := by omega
      rw [hwidth, hall, stretch_append]
    · have hall :
        (min stop m.size - first).toNat = (min (first + width) m.size - first).toNat := by omega
      have hrest : (min stop m.size - (first + width)).toNat = 0 := by omega
      rw [hall, hrest]
      exact List.append_nil _
  · intro r hr
    rcases List.mem_cons.mp hr with rfl | hr
    · exact hentry
    · exact h.entry r hr

end

end Memory

/-- What is printed of line after line, up to the first that cannot be written. -/
def recited : List (Except Trouble String) → String
  | [] => ""
  | .ok line :: rest => line ++ "\n" ++ recited rest
  | .error t :: _ => "Error: " ++ t.message ++ "\n"

namespace Session

variable {m : Memory} {c : Console}

def recite : List (Except Trouble String) → Session Unit
  | [] => return ()
  | .ok line :: rest => do
    say line
    recite rest
  | .error t :: _ => throw t

theorem mapM_cell (hw : ∀ a, Numeral.isWritable (m.peek a) = true) {addresses : List Int}
    (h : ∀ a ∈ addresses, 0 ≤ a) :
    addresses.mapM (cell m) = pure (addresses.map fun a => toString (m.peek a)) := by
  induction addresses with
  | nil => rfl
  | cons a addresses ih =>
    have ha := h a List.mem_cons_self
    have hget : m.getIndexed a = .ok (m.peek a) := by
      rw [Memory.getIndexed, if_pos ha, Memory.peek_of_nonneg m ha]
    have hwrite : Numeral.write (m.peek a) = .ok (toString (m.peek a)) := if_pos (hw a)
    have hcell : cell m a = pure (toString (m.peek a)) := by
      simp only [cell, hget, number, hwrite]
      rfl
    rw [List.mapM_cons, hcell, ih fun a ha => h a (List.mem_cons_of_mem _ ha)]
    simp

theorem mapM_cell_addresses (hw : ∀ a, Numeral.isWritable (m.peek a) = true) {first : Int}
    (h : 0 ≤ first) (count : Nat) :
    (addresses first count).mapM (cell m) = pure ((m.stretch first count).map toString) := by
  rw [mapM_cell hw fun a ha => Int.le_trans h (le_of_mem_addresses ha), Memory.stretch,
    List.map_map]
  rfl

theorem recite_line (first : Int) (line : String → String) (rest : List (Except Trouble String))
    (width : String → String) {act : Session Unit} (hrest : act = recite rest) :
    (ofNumeral ((Numeral.write first).map width) >>= fun label =>
    say (line label) >>= fun _ => act) =
      recite (((Monitor.written first).map fun address => line (width address)) :: rest) := by
  rw [hrest, Monitor.written]
  cases Numeral.write first <;> rfl

theorem dumpRows_covers (hw : ∀ a, Numeral.isWritable (m.peek a) = true) {first : Int}
    (h : 0 ≤ first) (count : Nat) :
    ∃ rows, m.Dumps first count rows ∧
      dumpRows m ((count + (rowLength - 1)) / rowLength) first (first + count) =
        recite (rows.map DumpRow.line) := by
  generalize hn : (count + (rowLength - 1)) / rowLength = n
  induction n generalizing first count with
  | zero =>
    have hzero : count = 0 := by
      simp only [rowLength] at hn
      omega
    subst hzero
    exact ⟨[], .nil, rfl⟩
  | succ n ih =>
    have hrow : rowLength = 8 := rfl
    rw [hrow] at hn
    obtain ⟨k, hk⟩ : ∃ k, k = min count rowLength := ⟨_, rfl⟩
    have hwidth : (min (first + rowLength) (first + count) - first).toNat = k := by omega
    have hbehind : 0 ≤ first + (rowLength : Int) := by omega
    obtain ⟨rows, hrows, hrest⟩ := ih hbehind (count - k) (by rw [hrow]; omega)
    have hcovers := Memory.Dumps.cons (k := k) (by omega) (by omega) (by omega) hrows
    have hstop : dumpRows m n (first + rowLength) (first + count) =
        dumpRows m n (first + rowLength) (first + rowLength + (count - k : Nat)) := by
      cases n with
      | zero => rfl
      | succ n =>
        have heq : first + (count : Int) = first + rowLength + (count - k : Nat) := by omega
        rw [heq]
    have hcount : k + (count - k) = count := by omega
    rw [hcount] at hcovers
    refine ⟨_, hcovers, ?_⟩
    rw [dumpRows, hwidth, mapM_cell_addresses hw h, pure_bind]
    exact recite_line first _ _ (Text.alignRight 6) (hstop.trans hrest)

theorem disassemble_covers (hw : ∀ a, Numeral.isWritable (m.peek a) = true) (pc : Int) {first : Int}
    (h : 0 ≤ first) (count : Nat) :
    ∃ rows, m.Disassembles first count rows ∧
      disassemble m pc count first = recite (rows.map (CodeRow.line pc)) := by
  induction count generalizing first with
  | zero => exact ⟨[], .nil nofun, rfl⟩
  | succ count ih =>
    by_cases hend : (m.size : Int) ≤ first
    · refine ⟨[], .nil fun _ => hend, ?_⟩
      rw [disassemble, if_pos hend]
      rfl
    · obtain ⟨text, width, hentry, -⟩ := Listing.exists_entry hw first
      have hbehind : 0 ≤ first + (width : Int) := by omega
      obtain ⟨rows, hrows, hrest⟩ := ih hbehind
      refine ⟨_, .cons hentry hrows, ?_⟩
      have hread : ofNumeral (.ok (text, width)) = pure (text, width) := rfl
      rw [disassemble, if_neg hend, hentry, hread, pure_bind]
      simp only
      rw [mapM_cell_addresses hw h, pure_bind]
      exact recite_line first _ _ (Text.alignRight 6) hrest

theorem run_recite (lines : List (Except Trouble String)) (c : Console) :
    ∃ c', c'.monitor = c.monitor ∧
      (((recite lines).run c = .ok () c' ∧ c'.printed = c.printed ++ recited lines) ∨
        ∃ t, .error t ∈ lines ∧ (recite lines).run c = .error t c' ∧
          c'.printed ++ "Error: " ++ t.message ++ "\n" = c.printed ++ recited lines) := by
  induction lines generalizing c with
  | nil => exact ⟨c, rfl, .inl ⟨rfl, String.append_empty.symm⟩⟩
  | cons line lines ih =>
    cases line with
    | error t =>
      refine ⟨c, rfl, .inr ⟨t, List.mem_cons_self, rfl, ?_⟩⟩
      simp only [recited, String.append_assoc]
    | ok line =>
      obtain ⟨c', hmonitor, hrest⟩ := ih (c.saying line)
      refine ⟨c', hmonitor, ?_⟩
      have hprinted : (c.saying line).printed ++ recited lines =
          c.printed ++ recited (.ok line :: lines) := by
        simp only [Console.saying, recited, String.append_assoc]
      rcases hrest with ⟨hrun, hp⟩ | ⟨t, ht, hrun, hp⟩
      · exact .inl ⟨hrun, hp.trans hprinted⟩
      · exact .inr ⟨t, List.mem_cons_of_mem _ ht, hrun, hp.trans hprinted⟩

end Session

namespace Monitor

open Session

variable {line argument : String} {c : Console}

theorem written_reported {n : Int} {f : String → String} {t : Trouble}
    (h : (written n).map f = .error t) : t.breakdown? = none := by
  unfold written at h
  cases hn : Numeral.write n with
  | ok text =>
    rw [hn] at h
    cases h
  | error e =>
    rw [hn] at h
    cases h
    rfl

theorem answer_recites {ρ : Type} {act : Session Unit} {rows : List ρ}
    {f : ρ → Except Trouble String}
    (hcommand : carryOut (Command.ofLine line) = act >>= fun _ => pure false)
    (hact : act.run c = (recite (rows.map f)).run c)
    (hf : ∀ r t, f r = .error t → t.breakdown? = none) :
    answer line c = (.ok false, { c with printed := c.printed ++ recited (rows.map f) }) := by
  obtain ⟨c', hmonitor, ⟨hrun, hprinted⟩ | ⟨t, ht, hrun, hprinted⟩⟩ := run_recite (rows.map f) c
  · have hdone : (carryOut (Command.ofLine line)).run c = .ok false c' := by
      rw [hcommand]
      exact run_bind_ok (hact.trans hrun)
    rw [answer, hdone, ← hmonitor, ← hprinted]
  · have hfailed : (carryOut (Command.ofLine line)).run c = .error t c' := by
      rw [hcommand]
      exact run_bind_error (hact.trans hrun)
    obtain ⟨r, -, hr⟩ := List.mem_map.mp ht
    rw [answer_of_error hfailed (hf r t hr), ← hmonitor, ← hprinted]

theorem answer_dump {first count : Int} (hline : Command.ofLine line = .call .dump argument)
    (hread : Argument.dumpListing c.monitor.machine argument = .ok (first, count))
    (hw : ∀ a, Numeral.isWritable (c.monitor.machine.memory.peek a) = true) (h : 0 ≤ first) :
    ∃ rows, c.monitor.machine.memory.Dumps first count.toNat rows ∧
      answer line c =
        (.ok false, { c with printed := c.printed ++ recited (rows.map DumpRow.line) }) := by
  obtain ⟨rows, hrows, hrecite⟩ := dumpRows_covers hw h count.toNat
  have hcommand := run_dumpCommand argument c
  rw [hread] at hcommand
  have hcarry : carryOut (Command.ofLine line) = dumpCommand argument >>= fun _ => pure false := by
    rw [hline]
    rfl
  refine ⟨rows, hrows, answer_recites hcarry ?_ fun r t => written_reported⟩
  rw [hcommand, ← hrecite]
  rcases Int.le_total 0 count with hcount | hcount
  · rw [Int.toNat_of_nonneg hcount]
    rfl
  · simp only [Argument.onto, Int.toNat_of_nonpos hcount]
    rfl

theorem answer_disassembly {first count : Int}
    (hline : Command.ofLine line = .call .disasm argument)
    (hread : Argument.disassemblyListing c.monitor.machine argument = .ok (first, count))
    (hw : ∀ a, Numeral.isWritable (c.monitor.machine.memory.peek a) = true) (h : 0 ≤ first) :
    ∃ rows, c.monitor.machine.memory.Disassembles first count.toNat rows ∧
      answer line c = (.ok false, { c with
        printed := c.printed ++ recited (rows.map (CodeRow.line c.monitor.machine.pc)) }) := by
  obtain ⟨rows, hrows, hrecite⟩ := disassemble_covers hw c.monitor.machine.pc h count.toNat
  have hcommand := run_disassembleCommand argument c
  rw [hread] at hcommand
  have hcarry : carryOut (Command.ofLine line) =
      disassembleCommand argument >>= fun _ => pure false := by
    rw [hline]
    rfl
  refine ⟨rows, hrows, answer_recites hcarry ?_ fun r t => written_reported⟩
  rw [hcommand, ← hrecite]
  rfl

theorem dumpListing_length {m : Machine} {words : List String} {first count : Int}
    (hread : Argument.dumpListing m argument = .ok (first, count))
    (hwords : Argument.words argument = .ok words) (hfew : words.length < 2) :
    count.toNat = (m.memory.size - first).toNat := by
  rw [Argument.dumpListing, Argument.listing, hwords] at hread
  have hlength : count = max (m.memory.size - first) 0 := by
    match words with
    | [] =>
      cases hread
      rfl
    | [word] =>
      have hfirst : (Argument.address m word >>= fun first =>
          Except.ok (first, max ((m.memory.size : Int) - first) 0)) = .ok (first, count) := hread
      cases ha : Argument.address m word with
      | error t =>
        rw [ha] at hfirst
        cases hfirst
      | ok a =>
        rw [ha] at hfirst
        cases hfirst
        rfl
    | _ :: _ :: _ => exact absurd hfew (by simp)
  omega

/-- A listing that starts at a cell shows all the cells that are asked for, each of them once: a
dump in full rows but for the last one, and a disassembly in rows that follow each other by their
widths. It stops early only at the end of memory, or at a row whose address is too long to write. -/
theorem listings_cover_cells (hshort : ∀ n ∈ c.monitor.machine.memory.toList, Numeral.IsShort n) :
    let m := c.monitor.machine
    (∀ line argument first count, Command.ofLine line = .call .dump argument →
      Argument.dumpListing m argument = .ok (first, count) → 0 ≤ first →
      ∃ rows, m.memory.Dumps first count.toNat rows ∧
        answer line c =
          (.ok false, { c with printed := c.printed ++ recited (rows.map DumpRow.line) }) ∧
        ∀ words, Argument.words argument = .ok words → words.length < 2 →
          rows.flatMap DumpRow.cells = m.memory.toList.drop first.toNat) ∧
    ∀ line argument first count, Command.ofLine line = .call .disasm argument →
      Argument.disassemblyListing m argument = .ok (first, count) → 0 ≤ first →
      ∃ rows, m.memory.Disassembles first count.toNat rows ∧
        answer line c =
          (.ok false,
          { c with printed := c.printed ++ recited (rows.map (CodeRow.line m.pc)) }) := by
  have hw := Memory.isWritable_peek hshort
  refine ⟨fun line argument first count hline hread h => ?_,
    fun line argument first count hline hread h =>
    answer_disassembly hline hread hw h⟩
  obtain ⟨rows, hrows, hanswer⟩ := answer_dump hline hread hw h
  refine ⟨rows, hrows, hanswer, fun words hwords hfew => ?_⟩
  rw [hrows.cells, dumpListing_length hread hwords hfew, Memory.stretch_to_end _ h]

/-- A dump over the end of memory, and a disassembly whose last row is cut off by it. -/
theorem listings_cover_cells_past_end :
    let c : Console := { monitor := { machine := .ofCells [1002, 4, 99] } }
    let m := c.monitor.machine.memory
    (∀ n ∈ m.toList, Numeral.IsShort n) ∧
      (∃ rows, m.Dumps 1 9 rows ∧
        (answer "dump 1 9" c).2.printed = recited (rows.map DumpRow.line)) ∧
      (∃ rows, m.Disassembles 0 16 rows ∧
        (answer "disasm" c).2.printed = recited (rows.map (CodeRow.line 0))) ∧
      (answer "dump 1 9" c).2.printed = "       1: 4 99 0 0 0 0 0 0\n       9: 0\n" ∧
      (answer "disasm" c).2.printed =
        "  >>>      0: 1002,4,99                MUL  [4], #99, [0]\n" := by
  intro c m
  have hshort : ∀ n ∈ m.toList, Numeral.IsShort n := by
    intro n hn
    exact Numeral.isWritable_iff.mp (List.all_eq_true.mp (by decide +kernel) n hn)
  obtain ⟨hdump, hdisasm⟩ := listings_cover_cells (c := c) hshort
  obtain ⟨rows, hrows, hanswer, -⟩ :=
    hdump "dump 1 9" "1 9" 1 9 (by decide +kernel) (by decide +kernel)
    (by decide)
  obtain ⟨code, hcode, hanswer'⟩ := hdisasm "disasm" "" 0 16 (by decide +kernel) (by decide +kernel)
    (by decide)
  refine ⟨hshort, ⟨rows, hrows, ?_⟩, ⟨code, hcode, ?_⟩, by decide +kernel, by decide +kernel⟩
  · rw [hanswer]
    exact String.empty_append
  · rw [hanswer']
    exact String.empty_append

/-- A row whose address is too long to write. -/
theorem dump_stops_at_long_address :
    let address : Int := Numeral.writeBound
    let m : Monitor := { machine := { Machine.ofCells [99] with pc := address } }
    ((∀ n ∈ m.machine.memory.toList, Numeral.IsShort n) ∧
        Argument.dumpListing m.machine "pc 1" = .ok (address, 1) ∧ 0 ≤ address) ∧
      onLine "dump pc 1" m = (.ok false, m, "Error: " ++ NumeralError.tooLong.message ++ "\n") ∧
      (onLine "dump pc 1" m).2.2 ≠ s!"  {Text.alignRight 6 (toString address)}: 0\n" := by
  intro address m
  have hshort : ∀ n ∈ m.machine.memory.toList, Numeral.IsShort n := by
    intro n hn
    exact Numeral.isWritable_iff.mp (List.all_eq_true.mp (by decide +kernel) n hn)
  have hanswer : onLine "dump pc 1" m =
      (.ok false, m, "Error: " ++ NumeralError.tooLong.message ++ "\n") := by
    decide +kernel
  refine ⟨⟨hshort, by decide +kernel, by decide +kernel⟩, hanswer, fun h => ?_⟩
  have hfirst := congrArg (fun text => text.toList.head?) h
  rw [hanswer] at hfirst
  simp only [toString, String.toList_append, List.append_assoc] at hfirst
  exact absurd (Option.some.inj hfirst) (by decide)

end Monitor

end Intcode
