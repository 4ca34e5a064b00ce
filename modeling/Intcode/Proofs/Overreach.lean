import Intcode.CommandLine.Run
import Intcode.Proofs.Arguments
import Intcode.Proofs.Endurance

namespace Intcode

namespace Memory

theorem getIndexed_eq_error {m : Memory} {i : Int} {e : IndexError} :
    m.getIndexed i = .error e ↔
      i < 0 ∧ (i < leastIndex ∧ e = .tooLarge ∨
        leastIndex ≤ i ∧ i < -(m.size : Int) ∧ e = .outOfRange) := by
  unfold getIndexed
  split
  next h =>
    constructor
    · intro he
      cases he
    · intro hi
      omega
  next h =>
    split
    next hl =>
      constructor
      · intro he
        cases he
        exact ⟨by omega, .inl ⟨hl, rfl⟩⟩
      · rintro ⟨_, ⟨_, rfl⟩ | ⟨hle, _⟩⟩
        · rfl
        · omega
    next hl =>
      split
      next hs =>
        constructor
        · intro he
          cases he
          exact ⟨by omega, .inr ⟨by omega, by omega, rfl⟩⟩
        · rintro ⟨_, ⟨hlt, _⟩ | ⟨_, _, rfl⟩⟩
          · omega
          · rfl
      next hs =>
        constructor
        · intro he
          cases he
        · rintro ⟨_, ⟨hlt, _⟩ | ⟨_, hlt, _⟩⟩
          · omega
          · omega

/-- Where a cell can be shown, so can all cells behind it. -/
theorem getIndexed_ne_error_of_le {m : Memory} {i j : Int} {n : Int} (h : m.getIndexed i = .ok n)
    (hle : i ≤ j) (e : IndexError) : m.getIndexed j ≠ .error e := by
  intro hj
  have hi (e' : IndexError) : m.getIndexed i ≠ .error e' := by
    rw [h]
    exact nofun
  obtain ⟨hneg, ⟨hlt, _⟩ | ⟨_, hlt, _⟩⟩ := getIndexed_eq_error.mp hj
  · exact hi .tooLarge (getIndexed_eq_error.mpr ⟨by omega, .inl ⟨by omega, rfl⟩⟩)
  · by_cases hl : i < leastIndex
    · exact hi .tooLarge (getIndexed_eq_error.mpr ⟨by omega, .inl ⟨hl, rfl⟩⟩)
    · exact hi .outOfRange (getIndexed_eq_error.mpr ⟨by omega, .inr ⟨by omega, by omega, rfl⟩⟩)

end Memory

namespace Command

/-- Where a listing command starts and how long its listing is, if its argument says so. -/
def listing? (m : Machine) : Command → Option (Int × Int)
  | .call .dump argument => (Argument.dumpListing m argument).toOption
  | .call .disasm argument => (Argument.disassemblyListing m argument).toOption
  | _ => none

/-- The command lists a cell below the least address that memory can be searched for. -/
def Overreaches (m : Machine) (command : Command) (e : IndexError) : Prop :=
  ∃ first count, command.listing? m = some (first, count) ∧ 0 < count ∧
    m.memory.getIndexed first = .error e

theorem listing?_of_not_lists {m : Machine} {command : Command} (h : command.lists = false) :
    command.listing? m = none := by
  cases command with
  | nothing | unknown line => rfl
  | call verb argument =>
    cases verb with
    | dump | disasm => cases h
    | bp | bpd | continue_ | endOfInput | help | input | output | quit | regs | run | setmem
    | status | step => rfl

def ends : Command → Bool
  | .call .quit _ | .call .endOfInput _ => true
  | _ => false

end Command

namespace Session

open Monitor (IntegersOnly)

theorem addresses_succ (first : Int) (count : Nat) :
    addresses first (count + 1) = first :: addresses (first + 1) count := by
  unfold addresses
  rw [List.range_succ_eq_map, List.map_cons, List.map_map]
  congr 1
  · simp
  · apply List.map_congr_left
    intro k _
    simp only [Function.comp, Nat.succ_eq_add_one]
    omega

theorem run_cells_bad {m : Memory} {first : Int} {e : IndexError}
    (h : m.getIndexed first = .error e) {count : Nat} (hc : 0 < count) (c : Console) :
    ((addresses first count).mapM (cell m)).run c = .error (.index e) c := by
  obtain ⟨more, rfl⟩ : ∃ more, count = more + 1 := ⟨count - 1, by omega⟩
  have hcell : (cell m first).run c = .error (.index e) c := by
    unfold cell
    rw [h]
    rfl
  rw [addresses_succ, List.mapM_cons]
  exact run_bind_error hcell

section

variable {m : Memory} {first : Int}

theorem run_dumpRows_bad {e : IndexError} (h : m.getIndexed first = .error e) {count : Int}
    (hc : 0 < count) (c : Console) :
    (dumpRows m ((count.toNat + (rowLength - 1)) / rowLength) first (first + count)).run c =
      .error (.index e) c := by
  obtain ⟨rows, hrows⟩ : ∃ rows, (count.toNat + (rowLength - 1)) / rowLength = rows + 1 := by
    refine ⟨(count.toNat + (rowLength - 1)) / rowLength - 1, ?_⟩
    have hpos : 0 < (count.toNat + (rowLength - 1)) / rowLength := by
      apply Nat.div_pos
      · omega
      · decide
    omega
  have hwidth : 0 < (min (first + rowLength) (first + count) - first).toNat := by
    have hlength : (0 : Int) < rowLength := by decide
    omega
  rw [hrows]
  unfold dumpRows
  exact run_bind_error (run_cells_bad h hwidth c)

theorem entry_below (m : Memory) {address : Int} (h : address < 0) :
    Listing.entry m address = .ok ("DATA 0", 1) := by
  have hpeek : m.peek address = 0 := by rw [Memory.peek, if_pos h]
  have hdecode : Instruction.decode 0 = .error (.unknownOpcode 0) := rfl
  have hwritable : Numeral.isWritable 0 = true := decide_eq_true Numeral.writeBound_pos
  have hwrite : Numeral.write 0 = .ok "0" := by
    rw [Numeral.write, if_pos hwritable]
    rfl
  unfold Listing.entry
  simp only [hpeek, hdecode, hwrite]
  rfl

theorem run_disassemble_bad {e : IndexError} (h : m.getIndexed first = .error e) {count : Int}
    (hc : 0 < count) (pc : Int) (c : Console) :
    (disassemble m pc count.toNat first).run c = .error (.index e) c := by
  obtain ⟨more, hmore⟩ : ∃ more, count.toNat = more + 1 := ⟨count.toNat - 1, by omega⟩
  have hneg := (Memory.getIndexed_eq_error.mp h).1
  have hentry := entry_below m hneg
  have hread : (ofNumeral (Listing.entry m first)).run c = .ok ("DATA 0", 1) c := by
    rw [hentry]
    rfl
  have hwidth : 0 < (min (first + (1 : Nat)) m.size - first).toNat := by
    omega
  rw [hmore]
  unfold disassemble
  rw [if_neg (by omega), run_bind_ok hread]
  exact run_bind_error (run_cells_bad h hwidth c)

end

variable {command : Command} {c : Console}

/-- What comes of a listing whose start and length are read from an argument. -/
structure Lists (act : Session Unit) (c : Console) (m : Memory) (r : Except Trouble (Int × Int)) :
    Prop where
  unread : ∀ t, r = .error t → act.run c = .error t c
  overreaching : ∀ first count e, r = .ok (first, count) → 0 < count →
    m.getIndexed first = .error e → act.run c = .error (.index e) c
  within : ∀ first count, r = .ok (first, count) →
    (∀ e, 0 < count → m.getIndexed first ≠ .error e) → c.monitor.IntegersOnly →
    ∀ t c' b, act.run c = .error t c' → t.breakdown? ≠ some b

theorem Lists.of_run {act : Session Unit} {m : Memory} {r : Except Trouble (Int × Int)}
    {list : Int → Int → Session Unit}
    (hrun : act.run c = Argument.onto c r fun (first, count) => (list first count).run c)
    (hempty : ∀ first count, count ≤ 0 → (list first count).run c = .ok () c)
    (hover : ∀ first count e, 0 < count → m.getIndexed first = .error e →
      (list first count).run c = .error (.index e) c)
    (hlasts : ∀ first count, (∀ a ≥ first, ∀ e, m.getIndexed a ≠ .error e) →
      Keeps IntegersOnly (fun _ => False) (list first count)) :
    Lists act c m r := by
  refine ⟨fun t hr => ?_, fun first count e hr hcount hi => ?_,
    fun first count hr hi hc t c' b h => ?_⟩
  · rw [hr] at hrun
    exact hrun
  · rw [hr] at hrun
    exact hrun.trans (hover first count e hcount hi)
  · rw [hr] at hrun
    have hlist : (list first count).run c = .error t c' := hrun.symm.trans h
    cases hg : m.getIndexed first with
    | ok n =>
      exact (hlasts first count fun a ha e => Memory.getIndexed_ne_error_of_le hg ha e).breaks
        c t c' b hc hlist
    | error e =>
      by_cases hcount : 0 < count
      · exact absurd hg (hi e hcount)
      · cases (hempty first count (by omega)).symm.trans hlist

theorem dumpCommand_lists (argument : String) (c : Console) :
    Lists (dumpCommand argument) c c.monitor.machine.memory
      (Argument.dumpListing c.monitor.machine argument) := by
  refine .of_run (run_dumpCommand argument c) (fun first count hcount => ?_)
    (fun first count e hcount hi => run_dumpRows_bad hi hcount c)
    (fun first count hi => .dumpRows hi _ _)
  have hzero : count.toNat = 0 := by omega
  rw [hzero]
  rfl

theorem disassembleCommand_lists (argument : String) (c : Console) :
    Lists (disassembleCommand argument) c c.monitor.machine.memory
      (Argument.disassemblyListing c.monitor.machine argument) := by
  refine .of_run (run_disassembleCommand argument c) (fun first count hcount => ?_)
    (fun first count e hcount hi => run_disassemble_bad hi hcount _ c)
    (fun first count hi => .disassemble hi _ _)
  have hzero : count.toNat = 0 := by omega
  rw [hzero]
  rfl

theorem Lists.breakdown_iff {act : Session Unit} {m : Memory} {r : Except Trouble (Int × Int)}
    (h : Lists act c m r) (hr : Argument.Reported r) (hc : c.monitor.IntegersOnly) (b : Breakdown) :
    (∃ t c', act.run c = .error t c' ∧ t.breakdown? = some b) ↔
      ∃ e, (∃ first count, r.toOption = some (first, count) ∧ 0 < count ∧
        m.getIndexed first = .error e) ∧ b = .index e := by
  cases r with
  | error t =>
    have hrun := h.unread t rfl
    constructor
    · rintro ⟨t', c', he, ht⟩
      cases hrun.symm.trans he
      rw [hr t rfl] at ht
      cases ht
    · rintro ⟨e, ⟨first, count, hl, _⟩, _⟩
      cases hl
  | ok l =>
    obtain ⟨first, count⟩ := l
    constructor
    · rintro ⟨t, c', he, ht⟩
      by_cases hover : ∃ e, 0 < count ∧ m.getIndexed first = .error e
      · obtain ⟨e, hcount, hi⟩ := hover
        cases (h.overreaching first count e rfl hcount hi).symm.trans he
        cases ht
        exact ⟨e, ⟨first, count, rfl, hcount, hi⟩, rfl⟩
      · have hwithin (e : IndexError) (hcount : 0 < count) : m.getIndexed first ≠ .error e :=
          fun hi => hover ⟨e, hcount, hi⟩
        exact absurd ht (h.within first count rfl hwithin hc t c' b he)
    · rintro ⟨e, ⟨first', count', hl, hcount, hi⟩, rfl⟩
      cases hl
      exact ⟨.index e, c, h.overreaching first count e rfl hcount hi, rfl⟩

theorem run_bind_pure_error {act : Session Unit} {x : Bool} {t : Trouble} {c' : Console} :
    (act >>= fun _ => pure x).run c = .error t c' ↔ act.run c = .error t c' := by
  cases hrun : act.run c with
  | ok _ c₁ =>
    rw [run_bind_ok hrun]
    constructor
    · intro h
      cases h
    · intro h
      cases h
  | error t' c₁ =>
    rw [run_bind_error hrun]
    constructor
    · intro h
      cases h
      rfl
    · intro h
      cases h
      rfl

/-- A command breaks down exactly if it lists a cell that memory cannot be searched for. -/
theorem carryOut_breakdown_iff (hc : c.monitor.IntegersOnly) (b : Breakdown) :
    (∃ t c', (carryOut command).run c = .error t c' ∧ t.breakdown? = some b) ↔
      ∃ e, command.Overreaches c.monitor.machine e ∧ b = .index e := by
  have hlists (hl : command.lists = false) : (∃ t c', (carryOut command).run c = .error t c' ∧
      t.breakdown? = some b) ↔ ∃ e, command.Overreaches c.monitor.machine e ∧ b = .index e := by
    have hlasts : Keeps IntegersOnly (fun _ => False) (carryOut command) := by
      refine keeps_integersOnly fun hl' => ?_
      rw [hl] at hl'
      cases hl'
    constructor
    · rintro ⟨t, c', he, ht⟩
      exact (hlasts.breaks c t c' b hc he ht).elim
    · rintro ⟨e, ⟨first, count, hlisting, _⟩, _⟩
      rw [Command.listing?_of_not_lists hl] at hlisting
      cases hlisting
  cases command with
  | nothing | unknown line => exact hlists rfl
  | call verb argument =>
    cases verb with
    | dump =>
      have hiff :=
        (dumpCommand_lists argument c).breakdown_iff (.listing c.monitor.machine _ _ argument) hc b
      refine Iff.trans ?_ hiff
      exact exists_congr fun t => exists_congr fun c' => and_congr_left fun _ => run_bind_pure_error
    | disasm =>
      have hiff := (disassembleCommand_lists argument c).breakdown_iff
        (.listing c.monitor.machine _ _ argument) hc b
      refine Iff.trans ?_ hiff
      exact exists_congr fun t => exists_congr fun c' => and_congr_left fun _ => run_bind_pure_error
    | bp | bpd | continue_ | endOfInput | help | input | output | quit | regs | run | setmem
    | status | step => exact hlists rfl

theorem carryOut_ends {stop : Bool} {c' : Console} (h : (carryOut command).run c = .ok stop c') :
    stop = command.ends := by
  have hpure {act : Session Unit} {x : Bool} (h : (act >>= fun _ => pure x).run c = .ok stop c') :
      stop = x := by
    cases hrun : act.run c with
    | ok _ c₁ =>
      rw [run_bind_ok hrun] at h
      cases h
      rfl
    | error t c₁ =>
      rw [run_bind_error hrun] at h
      cases h
  cases command with
  | nothing =>
    cases h
    rfl
  | unknown line => exact hpure h
  | call verb argument =>
    cases verb with
    | quit =>
      cases h
      rfl
    | bp | bpd | continue_ | disasm | dump | endOfInput | help | input | output | regs | run
    | setmem | status | step => exact hpure h

end Session

namespace Monitor

open Session

theorem answer_of_error {line : String} {c c' : Console} {t : Trouble}
    (h : (carryOut (Command.ofLine line)).run c = .error t c') (ht : t.breakdown? = none) :
    answer line c =
      (.ok false, { c' with printed := c'.printed ++ "Error: " ++ t.message ++ "\n" }) := by
  unfold answer
  rw [h]
  simp only [ht]

theorem answer_eq_error (line : String) (c : Console) (b : Breakdown) :
    (answer line c).1 = .error b ↔
      ∃ t c', (carryOut (Command.ofLine line)).run c = .error t c' ∧ t.breakdown? = some b := by
  unfold answer
  cases (carryOut (Command.ofLine line)).run c with
  | ok stop c' => simp
  | error t c' =>
    cases ht : t.breakdown? with
    | none => simp [ht]
    | some b' => simp [ht]

variable {c : Console}

theorem answer_complains {line text : String}
    (h : (Command.ofLine line).Complains c.monitor.machine text) :
    (answer line c).1 = .ok false ∧ (answer line c).2.printed = c.printed ++ text := by
  have hsaid {c' : Console} (hrun : (carryOut (Command.ofLine line)).run c = .ok false c')
      (hp : c'.printed = c.printed ++ text) :
      (answer line c).1 = .ok false ∧ (answer line c).2.printed = c.printed ++ text := by
    unfold answer
    rw [hrun]
    exact ⟨rfl, hp⟩
  generalize hcommand : Command.ofLine line = command at h hsaid
  cases h with
  | command line => exact hsaid rfl (by simp [String.append_assoc])
  | @topic topic hne hnone =>
    have habout : Help.about topic = "*** No help on " ++ topic := by
      rw [Help.about, if_neg hne, hnone]
      rfl
    have hrun : (carryOut (.call .help topic)).run c =
        .ok false { c with printed := c.printed ++ (Help.about topic ++ "\n") } := rfl
    exact hsaid hrun (by rw [habout])
  | @usage argument words hw hfew =>
    have hread := Reads.arguments argument c
    rw [hw] at hread
    have hrun : (setCommand argument).run c =
        (say "Usage: setmem <addr> <value...>").run c := by
      unfold setCommand
      rw [run_bind_ok hread]
      match words with
      | [] | [_] => rfl
      | _ :: _ :: _ =>
        simp only [List.length_cons] at hfew
        omega
    exact hsaid (run_bind_ok hrun) rfl
  | @argument _ t hbad =>
    obtain ⟨c', hp, hrun⟩ := carryOut_badArgument hbad
    rw [← hcommand] at hrun
    rw [answer_of_error hrun (Command.badArgument_reported hbad)]
    refine ⟨rfl, ?_⟩
    simp only [hp, String.append_assoc]

theorem answer_ok {line : String} {stop : Bool} (h : (answer line c).1 = .ok stop) :
    stop = (Command.ofLine line).ends := by
  cases hrun : (carryOut (Command.ofLine line)).run c with
  | ok stop' c' =>
    rw [answer, hrun] at h
    cases h
    exact carryOut_ends hrun
  | error t c' =>
    have hstop : stop = false := by
      cases ht : t.breakdown? with
      | none =>
        rw [answer_of_error hrun ht] at h
        cases h
        rfl
      | some b =>
        rw [(answer_eq_error line c b).mpr ⟨t, c', hrun, ht⟩] at h
        cases h
    generalize Command.ofLine line = command at hrun ⊢
    rw [hstop]
    cases command with
    | nothing | unknown line => rfl
    | call verb argument =>
      cases verb with
      | quit | endOfInput => cases hrun
      | bp | bpd | continue_ | disasm | dump | help | input | output | regs | run | setmem | status
      | step => rfl

theorem answer_keeps (line : String) (hc : c.monitor.IntegersOnly) :
    (answer line c).2.monitor.IntegersOnly := by
  rw [answer_monitor]
  exact (keeps_integersOnly (B := fun _ => True) fun _ _ => trivial).kept c hc

/-- A session breaks down only at a line that overreaches. -/
theorem converse_breaks {lines : List String} {b : Breakdown} (hc : c.monitor.IntegersOnly)
    (h : (converse lines c).1 = some b) : ∃ line ∈ lines, ∃ c' : Console, c'.monitor.IntegersOnly ∧
      ∃ e, (Command.ofLine line).Overreaches c'.monitor.machine e ∧ b = .index e := by
  -- Every answer keeps a queue of integers, so that the next line is answered as the first one.
  induction lines generalizing c with
  | nil => cases h
  | cons line lines ih =>
    unfold converse at h
    generalize hprompt : { c with printed := c.printed ++ prompt } = prompted at h
    have hc' : prompted.monitor.IntegersOnly := by
      rw [← hprompt]
      exact hc
    have hkept := answer_keeps line hc'
    have hbreaks := answer_eq_error line prompted
    generalize answer line prompted = answered at h hkept hbreaks
    obtain ⟨result, c₁⟩ := answered
    cases result with
    | error b' =>
      cases h
      have hover := (carryOut_breakdown_iff hc' b).mp ((hbreaks b).mp rfl)
      exact ⟨line, List.mem_cons_self, prompted, hc', hover⟩
    | ok stop =>
      cases stop with
      | true => cases h
      | false =>
        obtain ⟨later, hmem, hlater⟩ := ih hkept h
        exact ⟨later, List.mem_cons_of_mem line hmem, hlater⟩

/-- The monitor answers every line and goes on, but for a listing that starts below the least
address that memory can be searched for; and it prints a message for each line that it does not
understand. -/
theorem session_outlasts_lines (hc : c.monitor.IntegersOnly) :
    (∀ line, (answer line c).2.monitor.IntegersOnly ∧
      (∀ b, (answer line c).1 = .error b ↔
        ∃ e, (Command.ofLine line).Overreaches c.monitor.machine e ∧ b = .index e) ∧
      (∀ stop, (answer line c).1 = .ok stop → stop = (Command.ofLine line).ends) ∧
      ∀ text, (Command.ofLine line).Complains c.monitor.machine text →
        (answer line c).1 = .ok false ∧ (answer line c).2.printed = c.printed ++ text) ∧
    ∀ lines b, (converse lines c).1 = some b → ∃ line ∈ lines, ∃ c' : Console,
      c'.monitor.IntegersOnly ∧
        ∃ e, (Command.ofLine line).Overreaches c'.monitor.machine e ∧ b = .index e := by
  refine ⟨fun line => ⟨answer_keeps line hc, fun b => ?_, fun stop h => answer_ok h,
    fun text h => answer_complains h⟩, fun lines b h => converse_breaks hc h⟩
  exact (answer_eq_error line c b).trans (carryOut_breakdown_iff hc b)

/-- A cell that has no address, and a dump that starts with the last cell. -/
theorem session_outlasts_lines_negative :
    let c : Console := { monitor := { machine := .ofCells [1002, 4, 99] } }
    c.monitor.IntegersOnly ∧
      (answer "setmem -1 1" c).1 = .ok false ∧
      (answer "setmem -1 1" c).2.printed = "Error: Negative address: -1\n" ∧
      ∀ b, (answer "dump -1 1" c).1 ≠ .error b := by
  intro c
  have hc : c.monitor.IntegersOnly := nofun
  have hbad : (Command.ofLine "setmem -1 1").badArgument? c.monitor.machine =
      some (.machine (.fault (.negativeAddress (-1)))) := by decide +kernel
  obtain ⟨hlines, _⟩ := session_outlasts_lines hc
  obtain ⟨_, _, _, hcomplains⟩ := hlines "setmem -1 1"
  obtain ⟨hok, hprinted⟩ := hcomplains _ (.argument hbad)
  refine ⟨hc, hok, hprinted.trans (by decide +kernel), fun b hb => ?_⟩
  obtain ⟨e, ⟨first, count, hl, _, hi⟩, _⟩ := ((hlines "dump -1 1").2.1 b).mp hb
  have hlisting : (Command.ofLine "dump -1 1").listing? c.monitor.machine = some (-1, 1) := by
    decide +kernel
  cases hlisting.symm.trans hl
  cases hi

/-- A dump that starts eight cells before the only cell. -/
theorem session_breaks_below_memory :
    let m : Monitor := { machine := .ofCells [99] }
    m.IntegersOnly ∧ (¬ ∃ stop, (onLine "dump -9" m).1 = .ok stop) ∧
      onLine "dump -9" m = (.error (.index .outOfRange), m, "") := by
  intro m
  have hbreaks : onLine "dump -9" m = (.error (.index .outOfRange), m, "") := by decide +kernel
  refine ⟨nofun, ?_, hbreaks⟩
  rintro ⟨stop, hs⟩
  rw [hbreaks] at hs
  cases hs

end Monitor

namespace CommandLine

section

variable {arguments : List String} {i : Invocation}
  (ha : ∀ argument ∈ arguments, argument = "--" ∨ ¬ "--".toList <:+ argument.toList)
  (hi : Invocation.ofArguments arguments = .ok i)

include ha hi

theorem startMonitor_integersOnly (m : Machine) : (startMonitor i.options m).monitor.IntegersOnly :=
  integerInputs_of_ofArguments ha hi

/-- Where no argument attaches `--` to an option, the session breaks down only at a line that
overreaches. -/
theorem started_session_breaks {m : Machine} {lines : List String} {b : Breakdown}
    (h : (Monitor.converse lines (startMonitor i.options m)).1 = some b) :
    ∃ line ∈ lines, ∃ c : Console, c.monitor.IntegersOnly ∧
      ∃ e, (Command.ofLine line).Overreaches c.monitor.machine e ∧ b = .index e :=
  Monitor.converse_breaks (startMonitor_integersOnly ha hi m) h

end

end CommandLine

end Intcode
