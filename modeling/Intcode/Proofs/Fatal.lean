import Intcode.Proofs.Lockstep
import Intcode.Proofs.Malformed
import Intcode.Proofs.Reference

namespace Intcode

namespace Amplifier

/-- In its next step the amplifier comes to this machine, with no output before it. -/
def Meets (a : Amplifier) (journal : Journal) (m : Machine) : Prop :=
  ∃ s, a.machine.Comes Queue.host.journaled (fun _ _ => none) (a.inbox, journal) [] m s

theorem step_mono {fuel fuel' : Nat} {a a' : Amplifier} {journal journal' : Journal}
    {result : Except Error (Option Int)} (h : a.step fuel journal = some (result, a', journal'))
    (hle : fuel ≤ fuel') : a.step fuel' journal = some (result, a', journal') := by
  obtain ⟨o, ho, he⟩ := Option.map_eq_some_iff.mp h
  rw [Amplifier.step, Machine.step_mono ho hle]
  exact congrArg some he

theorem step_of_meets {a : Amplifier} {journal : Journal} {m dead : Machine} {e : Error}
    (hr : m.status = .running) (hm : m.move = .done (.error e) dead) (h : a.Meets journal m) :
    ∃ inbox journal' enough, ∀ fuel ≥ enough,
      a.step fuel journal = some (.error e, ⟨dead, inbox⟩, journal') := by
  obtain ⟨s, hs⟩ := h
  obtain ⟨enough, hstep⟩ := Machine.step_of_comes hr hm hs
  refine ⟨(Queue.host.journaled.watch m (.error e) s).1,
    (Queue.host.journaled.watch m (.error e) s).2, enough, fun fuel hf => ?_⟩
  rw [Amplifier.step, hstep fuel hf]
  rfl

theorem Meets.active {a : Amplifier} {journal : Journal} {m : Machine} (h : a.Meets journal m)
    (hr : m.status = .running) : a.machine.isHalted = false := by
  obtain ⟨s, hs⟩ := h
  rw [Machine.isHalted, hs.isRunning hr]
  rfl

end Amplifier

namespace Chain

section

variable {fuel fuel' : Nat} {last last' : Option Int} {c c' : Chain}

/-- A row of amplifiers after one whose last signal is known runs on that signal. -/
theorem relay_append {signal : Value} {before before' after : List Amplifier}
    {journal journal' : Journal} {v : Int}
    (h : relay fuel signal before journal = some (.ok v, before', journal')) (hle : fuel ≤ fuel')
    (hne : after ≠ []) :
    relay fuel' signal (before ++ after) journal =
      (relay fuel' (.integer v) after journal').map fun (result, rest, journal) =>
        (result, before' ++ rest, journal) := by
  induction before generalizing signal journal before' with
  | nil => cases h
  | cons a rest ih =>
    unfold relay at h
    cases hs : (a.inject [signal]).step fuel journal with
    | none => simp [hs] at h
    | some stepped =>
      obtain ⟨given, a', journal₁⟩ := stepped
      rw [List.cons_append, relay, Amplifier.step_mono hs hle]
      simp only [hs] at h
      rcases given with e | _ | w
      · cases h
      · cases h
      · cases rest with
        | nil =>
          cases h
          cases after with
          | nil => exact absurd rfl hne
          | cons b after => rfl
        | cons b rest =>
          obtain ⟨⟨given, rest', journal₂⟩, hrest, he⟩ := Option.map_eq_some_iff.mp h
          cases he
          have hlater := ih hrest
          rw [List.cons_append] at hlater ⊢
          simp only [hlater, Option.map_map]
          rfl

/-- The signal that comes to the amplifier after these ones in a serial run: the first signal, or
the one that the last of them gives. -/
inductive Relayed (signal : Value) (journal : Journal) :
    List Amplifier → Value → List Amplifier → Journal → Prop
  | first : Relayed signal journal [] signal [] journal
  | after {fuel : Nat} {before before' : List Amplifier} {journal' : Journal} {v : Int} :
      relay fuel signal before journal = some (.ok v, before', journal') →
      Relayed signal journal before (.integer v) before' journal'

/-- A serial run ends where the step of one of its amplifiers fails. -/
theorem runSerial_of_failed {signal signal' : Value} {before before' after : List Amplifier}
    {a dead : Amplifier} {journal' journal'' : Journal} {e : Error} {enough : Nat}
    (hc : c.amplifiers = before ++ a :: after)
    (hbefore : Relayed signal c.journal before signal' before' journal')
    (hstep : ∀ fuel ≥ enough,
      (a.inject [signal']).step fuel journal' = some (.error e, dead, journal'')) :
    ∃ enough, ∀ fuel ≥ enough, c.runSerial fuel signal =
      some (.error e, { c with amplifiers := before' ++ dead :: after, journal := journal'' }) := by
  have hend (fuel : Nat) (hf : fuel ≥ enough) :
      relay fuel signal' (a :: after) journal' = some (.error e, dead :: after, journal'') := by
    rw [relay, hstep fuel hf]
  cases hbefore with
  | first =>
    refine ⟨enough, fun fuel hf => ?_⟩
    rw [runSerial, hc, List.nil_append, hend fuel hf]
    rfl
  | @after used _ _ _ v hrelay =>
    refine ⟨max enough used, fun fuel hf => ?_⟩
    rw [runSerial, hc, relay_append hrelay (by omega) (List.cons_ne_nil _ _), hend fuel (by omega)]
    rfl

theorem turn_mono {index : Nat} {result : Except Error (Option Int)}
    (h : c.turn fuel index = some (result, c')) (hle : fuel ≤ fuel') :
    c.turn fuel' index = some (result, c') := by
  unfold turn at h ⊢
  cases ha : c.amplifiers[index]? with
  | none => simpa only [ha] using h
  | some a =>
    simp only [ha] at h ⊢
    split at h
    next hh => rwa [if_pos hh]
    next hh =>
      rw [if_neg hh]
      cases hs : a.step fuel c.journal with
      | none => simp [hs] at h
      | some stepped =>
        rw [Amplifier.step_mono hs hle]
        simpa only [hs] using h

theorem turns_mono {schedule : List Nat} {result : Except Error (Option Int)}
    (h : c.turns fuel schedule last = some (result, c')) (hle : fuel ≤ fuel') :
    c.turns fuel' schedule last = some (result, c') := by
  induction schedule generalizing last c with
  | nil => exact h
  | cons index rest ih =>
    unfold turns at h ⊢
    cases ht : c.turn fuel index with
    | none => simp [ht] at h
    | some after =>
      obtain ⟨given, c₁⟩ := after
      rw [turn_mono ht hle]
      simp only [ht] at h ⊢
      cases given with
      | error e => exact h
      | ok out => exact ih h

theorem turns_append {schedule rest : List Nat}
    (h : c.turns fuel schedule last = some (.ok last', c')) :
    c.turns fuel (schedule ++ rest) last = c'.turns fuel rest last' := by
  induction schedule generalizing last c with
  | nil =>
    cases h
    rfl
  | cons index schedule ih =>
    obtain ⟨out, c₁, ht, hrest, _⟩ := turns_cons h
    rw [List.cons_append, turns, ht]
    exact ih hrest

/-- A round ends with the turn that fails. -/
theorem turns_of_failed {index : Nat} {c'' : Chain} {e : Error}
    (h : c.turns fuel (List.range index) last = some (.ok last', c'))
    (ht : c'.turn fuel index = some (.error e, c'')) (hi : index < c.size) :
    c.turns fuel (List.range c.size) last = some (.error e, c'') := by
  have hsplit : List.range c.size =
      List.range index ++ index :: (List.range c.size).drop (index + 1) := by
    have htake : (List.range c.size).take index = List.range index := by
      rw [List.take_range, Nat.min_eq_left (Nat.le_of_lt hi)]
    have hdrop : (List.range c.size).drop index =
        index :: (List.range c.size).drop (index + 1) := by
      rw [List.drop_eq_getElem_cons (by simpa using hi), List.getElem_range]
    rw [← htake, ← hdrop, List.take_append_drop]
  rw [hsplit, turns_append h, turns, ht]

theorem roundsFrom_of_rounds {result : Except Error Int} {c'' : Chain}
    (h : Rounds last c last' c')
    (hend : ∃ enough, ∀ fuel ≥ enough, c'.roundsFrom fuel last' = some (result, c'')) :
    ∃ enough, ∀ fuel ≥ enough, c.roundsFrom fuel last = some (result, c'') := by
  induction h with
  | refl => exact hend
  | @round last last₁ last' c c₁ c' used hrun ht _ ih =>
    obtain ⟨enough, hlater⟩ := ih hend
    refine ⟨max enough used + 1, fun fuel hf => ?_⟩
    obtain ⟨more, rfl⟩ : ∃ more, fuel = more + 1 := ⟨fuel - 1, by omega⟩
    unfold roundsFrom
    rw [if_neg (by simp [hrun]), turns_mono ht (by omega)]
    exact hlater more (by omega)

/-- A feedback run ends where the step of one of its amplifiers fails. -/
theorem runFeedback_of_failed {signal : Value} {index used enough : Nat} {c₁ c₂ : Chain}
    {a dead : Amplifier} {journal' : Journal} {e : Error}
    (hrounds : Rounds none (c.inject 0 [signal]) last c₁)
    (hturns : c₁.turns used (List.range index) last = some (.ok last', c₂))
    (ha : c₂.amplifiers[index]? = some a) (hrun : a.machine.isHalted = false)
    (hstep : ∀ fuel ≥ enough, a.step fuel c₂.journal = some (.error e, dead, journal')) :
    ∃ enough, ∀ fuel ≥ enough, c.runFeedback fuel signal =
      some (.error e,
        { c₂ with amplifiers := c₂.amplifiers.set index dead, journal := journal' }) := by
  refine roundsFrom_of_rounds hrounds ⟨max enough used + 1, fun fuel hf => ?_⟩
  obtain ⟨more, rfl⟩ : ∃ more, fuel = more + 1 := ⟨fuel - 1, by omega⟩
  have hturn : c₂.turn (more + 1) index = some (.error e,
      { c₂ with amplifiers := c₂.amplifiers.set index dead, journal := journal' }) := by
    simp [turn, ha, hrun, hstep (more + 1) (by omega)]
  -- The turns before this one in the round have not reached the amplifier.
  obtain ⟨b, hb, hsame⟩ := turns_machines hturns List.nodup_range ha
  have hactive : c₁.allHalted = false := by
    by_contra hh
    have hstopped := stopped_of_allHalted (by simpa using hh) hb
    rw [if_neg (by simp)] at hsame
    rw [← hsame] at hstopped
    exact hstopped (Machine.isHalted_eq_false.mp hrun)
  unfold roundsFrom
  rw [if_neg (by simp [hactive]),
    turns_of_failed (turns_mono hturns (by omega)) hturn (getElem?_lt hb)]

end

end Chain

namespace Machine

/-- Every operation that comes to the machine `m` ends there, with an error and with this
machine. -/
structure Fatal (m : Machine) (e : Error) (dead : Machine) : Prop where
  instruction : ∀ {σ : Type} (host : Host σ) (s : σ), m.stepInstruction host s = ⟨.error e, dead, s⟩
  step : ∀ {σ : Type} {host : Host σ} {m₀ : Machine} {s₀ s : σ},
    m₀.Comes host (fun _ _ => none) s₀ [] m s → ∃ enough, ∀ fuel ≥ enough,
      m₀.step host fuel s₀ = some ⟨.error e, dead, host.watch m (.error e) s⟩
  run : ∀ {m₀ : Machine} {inputs left : List Value} {outputs : List Int},
    m₀.Comes Host.sequence (fun _ s => some s) inputs outputs m left → ∃ enough, ∀ fuel ≥ enough,
      m₀.run fuel inputs = some ⟨.error e, dead, left⟩
  collect : ∀ {σ : Type} {host : Host σ} {m₀ : Machine} {s₀ s : σ} {outputs : List Int},
    m₀.Comes host (fun _ s => some s) s₀ outputs m s → ∃ enough, ∀ fuel ≥ enough,
      m₀.collect host fuel s₀ = some ⟨.error e, dead, host.watch m (.error e) s⟩
  drive : ∀ {δ : Type} {device : Device δ} {limit : Option Int} {m₀ : Machine} {d₀ d : δ}
    {outputs : List Int}, Device.reached limit outputs.length = false →
    (if m₀.executed = 0 then device.attach d₀ m₀ else m₀).Comes device.toHost device.accept d₀
      outputs m d → ∃ enough, ∀ fuel ≥ enough,
        device.drive fuel limit m₀ d₀ = some ⟨.error e, dead, device.watch m (.error e) d⟩
  serial : ∀ {c : Chain} {signal signal' : Value} {before before' after : List Amplifier}
    {a : Amplifier} {journal' : Journal}, c.amplifiers = before ++ a :: after →
    Chain.Relayed signal c.journal before signal' before' journal' →
    (a.inject [signal']).Meets journal' m → ∃ inbox journal'' enough, ∀ fuel ≥ enough,
      c.runSerial fuel signal = some (.error e,
        { c with amplifiers := before' ++ ⟨dead, inbox⟩ :: after, journal := journal'' })
  feedback : ∀ {c c₁ c₂ : Chain} {signal : Value} {last last' : Option Int} {used index : Nat}
    {a : Amplifier}, Chain.Rounds none (c.inject 0 [signal]) last c₁ →
    c₁.turns used (List.range index) last = some (.ok last', c₂) →
    c₂.amplifiers[index]? = some a → a.Meets c₂.journal m →
    ∃ inbox journal' enough, ∀ fuel ≥ enough,
      c.runFeedback fuel signal = some (.error e,
        { c₂ with amplifiers := c₂.amplifiers.set index ⟨dead, inbox⟩, journal := journal' })

theorem fatal_of_move {m dead : Machine} {e : Error} (hr : m.status = .running)
    (hm : m.move = .done (.error e) dead) : m.Fatal e dead where
  instruction host s := by rw [stepInstruction_eq_meet, hm, Move.meet]
  step h := step_of_comes hr hm h
  run h := collectFrom_of_comes hr hm h (fun _ _ => rfl) []
  collect h := collectFrom_of_comes hr hm h (fun _ _ => rfl) []
  drive hl h := Device.driveFrom_of_comes hr hm h (by simpa using hl)
  serial hc hbefore h := by
    obtain ⟨inbox, journal'', enough, hstep⟩ := Amplifier.step_of_meets hr hm h
    exact ⟨inbox, journal'', Chain.runSerial_of_failed hc hbefore hstep⟩
  feedback hrounds hturns ha h := by
    obtain ⟨inbox, journal', enough, hstep⟩ := Amplifier.step_of_meets hr hm h
    exact ⟨inbox, journal', Chain.runFeedback_of_failed hrounds hturns ha (h.active hr) hstep⟩

/-- A malformed instruction is fatal to every operation that comes to it. The machine is dead of its
fault if that can be worded; else the fault is lost and the machine runs on. -/
theorem malformed_fatal {m : Machine} (hr : m.status = .running) (hm : m.tape.Malformed) :
    ∃ f dead, m.tape.fetch = .error f ∧ Failed f (.ofFault f) dead ∧ m.Fatal (.ofFault f) dead := by
  obtain ⟨f, dead, hmove, hf, hfailed⟩ := move_of_malformed hr hm
  exact ⟨f, dead, hf, hfailed, fatal_of_move hr hmove⟩

/-- A sum that stores into an immediate parameter, after an output. -/
theorem malformed_fatal_immediate_sum :
    let program := [104, 7, 11101, 2, 3, 0, 99]
    let m : Machine := { memory := .ofList program, pc := 2, executed := 1, emitted := 1 }
    m.status = .running ∧ m.tape.Malformed ∧ ∃ dead, dead.status = .faulted .illegalDestination ∧
      ∃ enough, ∀ fuel ≥ enough,
        (ofCells program).run fuel [] = some ⟨.error (.fault .illegalDestination), dead, []⟩ := by
  intro program m
  have hf : m.tape.fetch = .error .illegalDestination := by decide +kernel
  have hm : m.tape.Malformed := Tape.malformed_iff.mpr ⟨_, hf⟩
  have hcomes : (ofCells program).Comes Host.sequence (fun _ s => some s) [] [7] m [] :=
    .output (by decide +kernel) rfl (.refl _ _)
  obtain ⟨f, dead, hshown, hfailed, hfatal⟩ := malformed_fatal rfl hm
  cases hf.symm.trans hshown
  exact ⟨rfl, hm, dead, (hfailed.stopped rfl).2.1, hfatal.run hcomes⟩

theorem malformed_of_negative {cell : Int} (h : cell < 0) : (ofCells [cell, 99]).tape.Malformed ∧
    (ofCells [cell, 99]).tape.fetch = .error (.unknownOpcode cell) := by
  have hi : (ofCells [cell, 99]).tape.instruction = .error (.unknownOpcode cell) := by
    change Instruction.decode ((Memory.ofList [cell, 99]).get 0) = _
    rw [show (Memory.ofList [cell, 99]).get 0 = cell from rfl, Instruction.decode, if_pos h]
  exact ⟨.undecodable hi, by rw [Tape.fetch, hi]; rfl⟩

/-- A cell that is no instruction and too long to write, which leaves the machine running. -/
theorem malformed_survives_long_cell :
    let m := ofCells [-(Numeral.writeBound : Int), 99]
    m.status = .running ∧ m.tape.Malformed ∧
      (m.stepInstruction (.absent Unit) ()).result = .error (.numeral .tooLong) ∧
      (m.stepInstruction (.absent Unit) ()).machine.isHalted = false ∧
      (m.stepInstruction (.absent Unit) ()).machine.fault? = none := by
  intro m
  obtain ⟨hm, hf⟩ := malformed_of_negative neg_writeBound_neg
  obtain ⟨f, dead, hmove, hshown, hfailed⟩ := move_of_malformed (m := m) rfl hm
  cases hf.symm.trans hshown
  obtain ⟨he, hs, _⟩ := hfailed.lost isWritable_neg_writeBound
  have hout := (fatal_of_move rfl hmove).instruction (.absent Unit) ()
  rw [hout, he]
  refine ⟨rfl, hm, rfl, ?_, ?_⟩
  · simp [isHalted, isRunning, hs]
  · simp [fault?, hs]

end Machine

end Intcode
