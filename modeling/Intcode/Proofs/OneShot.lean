import Intcode.Proofs.Serial

namespace Intcode

namespace Machine

variable {m m' : Machine}

theorem move_emitted {out : Option Int} (h : m.move = .done (.ok out) m') :
    m'.emitted = m.emitted + out.toList.length := by
  have hcounts := (stepInstruction_counts (.absent Unit) m ()).2
  rwa [stepInstruction_eq_meet, h] at hcounts

theorem accept_emitted {w : Machine} {d : Nat} {next : Int} (h : m.move = .await w d next)
    (v : Int) :
    (w.accept d v next).emitted = m.emitted := by
  have hcounts := (stepInstruction_counts Host.sequence m [.integer v]).2
  rwa [stepInstruction_eq_meet, h] at hcounts

theorem Path.emitted {taken emitted : List Int} (h : Path m taken emitted m') :
    m'.emitted = m.emitted + emitted.length := by
  induction h with
  | refl => rfl
  | done hm _ ih => rw [ih, move_emitted hm, List.length_append, Nat.add_assoc]
  | take hm _ ih => rw [ih, accept_emitted hm]

theorem StepsTo.isHalted_of_silent {q : Queue} {o : Outcome Queue (Option Int)} (h : m.StepsTo q o)
    (hn : o.result = .ok none) : m.isHalted = false ∧ o.machine.isHalted = true := by
  obtain ⟨fuel, ho⟩ := h
  refine ⟨?_, isHalted_iff.mpr (isRunning_eq_false.mp (step_halted ho hn))⟩
  by_contra hh
  have hrefused : m.step Queue.host (fuel + 1) q = some ⟨.error (.halted m.fault?), m, q⟩ :=
    step_of_halted (by simpa using hh) fuel q
  cases hrefused.symm.trans (step_mono ho (Nat.le_succ fuel))
  cases hn

end Machine

/-- Stepped once more on its queue, the amplifier would halt without an output. -/
def Amplifier.FallsSilent (a : Amplifier) : Prop :=
  ∃ o, a.machine.StepsTo a.inbox o ∧ o.result = .ok none

namespace Chain

open Amplifier (fresh)

section

variable {fuel : Nat} {a a' : Amplifier} {journal journal' : Journal}

theorem turn_at_front (front rest : List Amplifier) (rounds : Nat) (hh : a.machine.isHalted = false)
    {result : Except Error (Option Int)} (hs : a.step fuel journal = some (result, a', journal')) :
    (⟨front ++ a :: rest, rounds, journal⟩ : Chain).turn fuel front.length =
      match result with
      | .error e => some (.error e, ⟨front ++ a' :: rest, rounds, journal'⟩)
      | .ok none => some (.ok none,
          ⟨front ++ a' :: rest, rounds, journal'.push (.amplifierHalted front.length rounds)⟩)
      | .ok (some v) => some (.ok (some v), (⟨front ++ a' :: rest, rounds, journal'⟩ : Chain).inject
          ((front.length + 1) % (front ++ a' :: rest).length) [.integer v]) := by
  have hset : (front ++ a :: rest).set front.length a' = front ++ a' :: rest := by simp
  unfold turn
  simp only [List.getElem?_append_right (Nat.le_refl front.length), Nat.sub_self,
    List.getElem?_cons_zero, hh, hs, hset]
  rcases result with e | _ | v <;> rfl

theorem step_of_turn_at_front (front rest : List Amplifier) (rounds : Nat)
    (hh : a.machine.isHalted = false) {out : Option Int} {c' : Chain}
    (h : (⟨front ++ a :: rest, rounds, journal⟩ : Chain).turn fuel front.length =
      some (.ok out, c')) :
    ∃ a' journal', a.step fuel journal = some (.ok out, a', journal') := by
  obtain ⟨_, _, hhalted⟩ | ⟨b, b', journal', hb, _, hs, _⟩ := turn_cases h
  · cases hh.symm.trans (hhalted a (by simp))
  · obtain rfl : a = b := by simpa using hb
    exact ⟨b', journal', hs⟩

end

/-- A row with a signal on the way to the amplifier behind its front, or to the first one if there
is none behind it. -/
def awaiting (front rest : List Amplifier) (signal : Int) (rounds : Nat)
    (journal : Journal) : Chain :=
  (⟨front ++ rest, rounds, journal⟩ : Chain).inject (front.length % (front ++ rest).length)
    [.integer signal]

section

variable {m : Machine} {signal last : Int} {phases : List Int} {row : List Amplifier}

theorem awaiting_start (amplifiers : List Amplifier) (signal : Int) (rounds : Nat)
    (journal : Journal) :
    awaiting [] amplifiers signal rounds journal =
      (⟨amplifiers, rounds, journal⟩ : Chain).inject 0 [.integer signal] := by
  simp [awaiting]

theorem awaiting_end (amplifiers : List Amplifier) (signal : Int) (rounds : Nat)
    (journal : Journal) :
    awaiting amplifiers [] signal rounds journal =
      (⟨amplifiers, rounds, journal⟩ : Chain).inject 0 [.integer signal] := by
  simp [awaiting]

theorem awaiting_cons (front rest : List Amplifier) (a : Amplifier) (signal : Int) (rounds : Nat)
    (journal : Journal) : awaiting front (a :: rest) signal rounds journal =
      ⟨front ++ a.inject [.integer signal] :: rest, rounds, journal⟩ := by
  have hmod : front.length % (front ++ a :: rest).length = front.length :=
    Nat.mod_eq_of_lt (by simp)
  have hmodify : (front ++ a :: rest).modify front.length (·.inject [.integer signal]) =
      front ++ a.inject [.integer signal] :: rest :=
    List.modifyTailIdx_add (List.modifyHead (Amplifier.inject · [.integer signal])) 0 front
      (a :: rest)
  rw [awaiting, hmod, Chain.inject, hmodify]

theorem turn_awaiting {fuel : Nat} {a a' : Amplifier} {journal journal' : Journal} {v : Int}
    (front rest : List Amplifier) (rounds : Nat) (hh : a.machine.isHalted = false)
    (hs : (a.inject [.integer signal]).step fuel journal = some (.ok (some v), a', journal')) :
    (awaiting front (a :: rest) signal rounds journal).turn fuel front.length =
      some (.ok (some v), awaiting (front ++ [a']) rest v rounds journal') := by
  have hactive : (a.inject [.integer signal]).machine.isHalted = false := hh
  rw [awaiting_cons, turn_at_front front rest rounds hactive hs, awaiting]
  simp

/-- The turns of a round go on with the signal on its way to the next amplifier; behind the last one
it is kept. -/
theorem turns_awaiting {fuel : Nat} {a a' : Amplifier} {journal journal' : Journal} {v : Int}
    (front rest : List Amplifier) (rounds : Nat) (hh : a.machine.isHalted = false)
    (hs : (a.inject [.integer signal]).step fuel journal = some (.ok (some v), a', journal'))
    (schedule : List Nat) (kept : Option Int) :
    (awaiting front (a :: rest) signal rounds journal).turns fuel (front.length :: schedule) kept =
      (awaiting (front ++ [a']) rest v rounds journal').turns fuel schedule
        (if rest = [] then some v else kept) := by
  have hsize : (awaiting (front ++ [a']) rest v rounds journal').size =
      front.length + 1 + rest.length := by
    simp [awaiting, Chain.inject, Chain.size, Nat.add_comm, Nat.add_left_comm]
  rw [turns, turn_awaiting front rest rounds hh hs]
  simp only [hsize, Option.some_or, Nat.left_eq_add, List.length_eq_zero_iff]

theorem turns_of_hands (hr : m.isHalted = false) (h : m.Hands signal phases last row)
    (front : List Amplifier) :
    ∃ enough, ∀ fuel ≥ enough, ∀ kept rounds journal, ∃ journal',
      (awaiting front (phases.map (fresh m)) signal rounds journal).turns fuel
          (List.range' front.length phases.length) kept =
        some (.ok (if phases = [] then kept else some last),
          awaiting (front ++ row) [] last rounds journal') := by
  -- By induction on what is behind the front: each turn makes the front one amplifier longer.
  induction h generalizing front with
  | done signal => exact ⟨0, fun fuel _ kept rounds journal => ⟨journal, by simp [turns]⟩⟩
  | @pass signal phase v last phases o row hstep hout hrest ih =>
    obtain ⟨enough, hfirst⟩ := step_of_handed hstep
    obtain ⟨enough', hlater⟩ := ih (front ++ [⟨o.machine, o.host⟩])
    refine ⟨max enough enough', fun fuel hf kept rounds journal => ?_⟩
    obtain ⟨journal₁, hs⟩ := hfirst fuel (by omega) journal
    rw [hout] at hs
    obtain ⟨journal₂, hturns⟩ := hlater fuel (by omega)
      (if phases.map (fresh m) = [] then some v else kept) rounds journal₁
    refine ⟨journal₂, ?_⟩
    have hlast :
      (if phases = [] then if phases.map (fresh m) = [] then some v else kept else some last) =
        some last := by
      split
      next hnil =>
        subst hnil
        cases hrest
        rfl
      next => rfl
    rw [hlast] at hturns
    rw [List.map_cons, List.length_cons, List.range'_succ,
      turns_awaiting front (phases.map (fresh m)) rounds (a := fresh m phase) hr hs]
    simpa using hturns

theorem hands_of_turns (hr : m.isHalted = false) (front : List Amplifier) {fuel : Nat}
    {kept kept' : Option Int} {rounds : Nat} {journal : Journal} {c' : Chain}
    (h : (awaiting front (phases.map (fresh m)) signal rounds journal).turns fuel
      (List.range' front.length phases.length) kept = some (.ok kept', c'))
    (hrun : ∀ (j : Nat) (a : Amplifier), c'.amplifiers[j]? = some a → a.machine.isHalted = false) :
    ∃ last row, m.Hands signal phases last row := by
  induction phases generalizing signal front kept journal with
  | nil => exact ⟨signal, [], .done signal⟩
  | cons phase phases ih =>
    have hactive : ((fresh m phase).inject [.integer signal]).machine.isHalted = false := hr
    rw [List.map_cons, List.length_cons, List.range'_succ, awaiting_cons] at h
    obtain ⟨out, c₁, hturn, hrest, _⟩ := turns_cons h
    obtain ⟨a', journal₁, hs⟩ :=
      step_of_turn_at_front front (phases.map (fresh m)) rounds hactive hturn
    have hstep := Amplifier.stepsTo_of_step hs
    cases out with
    | none =>
      cases (turn_at_front front (phases.map (fresh m)) rounds hactive hs).symm.trans hturn
      have hhalted := (hstep.isHalted_of_silent rfl).2
      have ha' : (front ++ a' :: phases.map (fresh m))[front.length]? = some a' := by simp
      obtain ⟨b, hb, hsame⟩ := (flow_of_turns hrest).stays ha' (Machine.isHalted_iff.mp hhalted)
      cases (hrun front.length b hb).symm.trans (hsame ▸ hhalted)
    | some v =>
      have hnext := turn_awaiting front (phases.map (fresh m)) rounds (a := fresh m phase) hr hs
      rw [awaiting_cons] at hnext
      cases hnext.symm.trans hturn
      have hlength : front.length + 1 = (front ++ [a']).length := by simp
      rw [hlength] at hrest
      obtain ⟨last, row, hrow⟩ := ih _ hrest
      exact ⟨last, _, .pass hstep rfl hrow⟩

theorem turns_of_silent {rest : List Amplifier}
    (h : ∀ a ∈ rest, a.FallsSilent) (front : List Amplifier) :
    ∃ enough, ∀ fuel ≥ enough, ∀ kept rounds journal, ∃ rest' journal',
      (⟨front ++ rest, rounds, journal⟩ : Chain).turns fuel
          (List.range' front.length rest.length) kept =
        some (.ok kept, ⟨front ++ rest', rounds, journal'⟩) ∧
      ∀ a ∈ rest', a.machine.isHalted = true := by
  induction rest generalizing front with
  | nil => exact ⟨0, fun fuel _ kept rounds journal => ⟨[], journal, by simp [turns], by simp⟩⟩
  | cons a rest ih =>
    obtain ⟨o, hstep, hout⟩ := h a List.mem_cons_self
    obtain ⟨hactive, hhalted⟩ := hstep.isHalted_of_silent hout
    obtain ⟨enough, hfirst⟩ := Amplifier.step_of_stepsTo hstep
    obtain ⟨enough', hlater⟩ := ih (fun b hb => h b (List.mem_cons_of_mem a hb))
      (front ++ [⟨o.machine, o.host⟩])
    refine ⟨max enough enough', fun fuel hf kept rounds journal => ?_⟩
    obtain ⟨journal₁, hs⟩ := hfirst fuel (by omega) journal
    rw [hout] at hs
    have hturn := turn_at_front front rest rounds hactive hs
    obtain ⟨rest', journal₂, hturns, hall⟩ := hlater fuel (by omega) kept rounds
      (journal₁.push (.amplifierHalted front.length rounds))
    refine ⟨⟨o.machine, o.host⟩ :: rest', journal₂, ?_, ?_⟩
    · rw [List.length_cons, List.range'_succ, turns, hturn]
      simpa using hturns
    · exact List.forall_mem_cons.mpr ⟨hhalted, hall⟩

end

section

variable {program : List Value} {phases : List Int} {signal r : Int} {fuel : Nat} {c c' : Chain}

theorem start_of_hands {m : Machine} {row : List Amplifier} (hr : m.isHalted = false)
    (h : m.Hands signal phases r row) (hne : phases ≠ []) :
    ∃ enough, ∀ fuel ≥ enough, ∃ journal,
      (({ amplifiers := phases.map (fresh m) } : Chain).inject 0 [.integer signal]).turns fuel
          (List.range phases.length) none =
        some (.ok (some r), (⟨row, 0, journal⟩ : Chain).inject 0 [.integer r]) := by
  obtain ⟨enough, hturns⟩ := turns_of_hands hr h []
  refine ⟨enough, fun fuel hf => ?_⟩
  obtain ⟨journal, ht⟩ := hturns fuel hf none 0 #[]
  rw [awaiting_start, awaiting_end, if_neg hne, List.length_nil, ← List.range_eq_range'] at ht
  exact ⟨journal, ht⟩

theorem signal_kept {last : Int} (hpos : 0 < c.size)
    (h : c.roundsFrom fuel (some last) = some (.ok r, c'))
    (hsame : ∀ (j : Nat) (a a' : Amplifier), c.amplifiers[j]? = some a →
      c'.amplifiers[j]? = some a' → a'.machine.emitted = a.machine.emitted) : r = last := by
  obtain ⟨hflow, _⟩ := flow_of_rounds h
  have hlt : c.size - 1 < c'.size := by
    rw [hflow.size]
    omega
  obtain ⟨a', ha'⟩ := getElem?_of_lt hlt
  obtain ⟨a, _, ha, hpath, _⟩ := hflow.amplifier (c.size - 1) a' ha'
  have hnone : (c.roundEmissions fuel (some last)).of (c.size - 1) = [] := by
    have hcount := hpath.emitted
    rw [hsame _ a a' ha ha'] at hcount
    exact List.length_eq_zero_iff.mp (by omega)
  have hlast := rounds_last hpos h
  rw [hnone] at hlast
  exact (Option.some.inj hlast).symm

/-- Where every amplifier emits one value in all, it emits that value in the first round and runs
on. -/
theorem emits_in_first_round (hc : ofPhases program (phases.map .integer) = .ok c) {more : Nat}
    {last : Option Int} {c₁ : Chain}
    (ht : (c.inject 0 [.integer signal]).turns (more + 1)
      (List.range (c.inject 0 [.integer signal]).size) none = some (.ok last, c₁))
    (hrest : { c₁ with rounds := c₁.rounds + 1 }.roundsFrom more last = some (.ok r, c'))
    (hone : ∀ a ∈ c'.amplifiers, a.machine.emitted = 1) {j : Nat} {a₁ : Amplifier}
    (ha₁ : c₁.amplifiers[j]? = some a₁) :
    a₁.machine.isHalted = false ∧ a₁.machine.emitted = 1 := by
  obtain ⟨m, hm, _, hmachine⟩ := start_machines hc (.integer signal)
  have hrun := load_running hm
  have hzero : m.emitted = 0 := by
    obtain ⟨cells, _, rfl⟩ := Machine.load_ok hm
    rfl
  obtain ⟨a, ha, hturn⟩ := round_machines ht ha₁
  rw [hmachine j a ha] at hturn
  cases hturn with
  | idle hh => cases hh.symm.trans (Machine.isHalted_eq_false.mpr hrun)
  | emits _ hr he => exact ⟨Machine.isHalted_eq_false.mpr hr, by omega⟩
  | halts _ hh he =>
    obtain ⟨b, hb, hsame⟩ := (flow_of_rounds hrest).1.stays ha₁ (by simp [hh])
    have hcount := hone b (List.mem_of_getElem? hb)
    rw [hsame] at hcount
    omega

/-- In a feedback run in which every amplifier emits one value, the first round hands the signal
through the row, and the last amplifier emits nothing after it. -/
theorem hands_of_feedback (hc : ofPhases program (phases.map .integer) = .ok c)
    (h : c.runFeedback fuel (.integer signal) = some (.ok r, c'))
    (hone : ∀ a ∈ c'.amplifiers, a.machine.emitted = 1) :
    ∃ m row, Machine.load program = .ok m ∧ m.Hands signal phases r row := by
  obtain ⟨m, hm, hne, rfl⟩ := ofPhases_row hc
  obtain ⟨_, hactive⟩ := inStep_start hc (.integer signal)
  obtain ⟨_, _, hsize, hpos, _⟩ := ofPhases_start hc signal
  obtain ⟨more, rfl⟩ : ∃ more, fuel = more + 1 := by
    cases fuel with
    | zero => cases h
    | succ more => exact ⟨more, rfl⟩
  obtain ⟨hh, _⟩ | ⟨last', c₁, ht, hrest, _⟩ := roundsFrom_ok h
  · cases hactive.symm.trans hh
  have hfirst {j : Nat} {a₁ : Amplifier} (ha₁ : c₁.amplifiers[j]? = some a₁) :=
    emits_in_first_round hc ht hrest hone ha₁
  rw [hsize] at ht
  have hr : m.isHalted = false := Machine.isHalted_eq_false.mpr (load_running hm)
  have hround := ht
  rw [List.range_eq_range', ← awaiting_start] at hround
  obtain ⟨last, row, hrow⟩ := hands_of_turns hr [] hround fun j a ha => (hfirst ha).1
  obtain ⟨enough, hagain⟩ := start_of_hands hr hrow hne
  obtain ⟨journal, ht'⟩ := hagain (max enough (more + 1)) (Nat.le_max_left _ _)
  cases (turns_mono ht (Nat.le_max_right _ _)).symm.trans ht'
  have hkept : r = last := by
    refine signal_kept ?_ hrest fun j a a' ha ha' => ?_
    · have hsame := (flow_of_turns ht).size
      rw [hsize] at hsame
      exact hsame ▸ hpos
    · rw [(hfirst ha).2, hone a' (List.mem_of_getElem? ha')]
  exact ⟨m, row, hm, hkept ▸ hrow⟩

theorem roundsFrom_of_allHalted (hh : c.allHalted = true) {fuel : Nat} (hf : fuel ≥ 1) :
    c.roundsFrom fuel (some r) = some (.ok r, c) := by
  obtain ⟨more, rfl⟩ : ∃ more, fuel = more + 1 := ⟨fuel - 1, by omega⟩
  rw [roundsFrom, if_pos hh]

theorem allHalted_of_active (hpos : 0 < c.size)
    (h : ∀ a ∈ c.amplifiers, a.machine.isHalted = false) : c.allHalted = false := by
  obtain ⟨a, ha⟩ := getElem?_of_lt hpos
  have hmem := List.mem_of_getElem? ha
  rw [allHalted, List.all_eq_false]
  exact ⟨a, hmem, by simp [h a hmem]⟩

/-- Where a serial run has a signal and its machines would then halt without an output, a feedback
run is the round of the signal and the round of the halts. -/
theorem feedback_of_serial {c₁ : Chain} (hc : ofPhases program (phases.map .integer) = .ok c)
    (h : c.runSerial fuel (.integer signal) = some (.ok r, c₁))
    (hsilent : ∀ a ∈ (c₁.inject 0 [.integer r]).amplifiers, a.FallsSilent) :
    ∃ enough, ∀ fuel ≥ enough, ∃ c',
      c.runFeedback fuel (.integer signal) = some (.ok r, c') ∧ c'.rounds = 2 := by
  obtain ⟨_, hactive⟩ := inStep_start hc (.integer signal)
  obtain ⟨_, _, hsize, hpos, _⟩ := ofPhases_start hc signal
  obtain ⟨m, hm, hne, rfl⟩ := ofPhases_row hc
  have hrow := hands_of_runSerial h
  obtain ⟨enough₁, hfirst⟩ :=
    start_of_hands (Machine.isHalted_eq_false.mpr (load_running hm)) hrow hne
  obtain ⟨enough₂, hsecond⟩ := turns_of_silent hsilent []
  obtain ⟨journal₁, ht₁⟩ := hfirst enough₁ (Nat.le_refl _)
  obtain ⟨last, journal₂, ht₂, hhalted⟩ := hsecond enough₂ (Nat.le_refl _) (some r) 1 journal₁
  rw [List.length_nil, ← List.range_eq_range'] at ht₂
  have hagain : Chain.allHalted ⟨(c₁.inject 0 [.integer r]).amplifiers, 1, journal₁⟩ = false := by
    refine allHalted_of_active ?_ fun a ha => ?_
    · simpa [Chain.inject, Chain.size, hrow.length] using hpos
    · obtain ⟨o, hstep, hout⟩ := hsilent a ha
      exact (hstep.isHalted_of_silent hout).1
  rw [← hsize] at ht₁
  have hlater : Rounds (some r) ⟨(c₁.inject 0 [.integer r]).amplifiers, 1, journal₁⟩ (some r)
      ⟨last, 2, journal₂⟩ := .round hagain ht₂ (.refl _ _)
  obtain ⟨enough, hrun⟩ := roundsFrom_of_rounds (.round hactive ht₁ hlater)
    ⟨1, fun fuel hf => roundsFrom_of_allHalted (List.all_eq_true.mpr hhalted) hf⟩
  exact ⟨enough, fun fuel hf => ⟨_, hrun fuel hf, rfl⟩⟩

end

/-- On amplifiers with one output each the two ways to run a chain agree. A feedback run in which
every amplifier emits one value has the signal of a serial run; and a serial run after which every
amplifier would halt, the first one with the signal in its queue, has the signal of a feedback run
of two rounds. -/
theorem one_shot_modes_agree {program : List Value} {phases : List Int} {c : Chain}
    (hc : ofPhases program (phases.map .integer) = .ok c) (signal : Int) :
    (∀ fuel r c', c.runFeedback fuel (.integer signal) = some (.ok r, c') →
      (∀ a ∈ c'.amplifiers, a.machine.emitted = 1) →
      ∃ enough, ∀ fuel ≥ enough, ∃ c₁, c.runSerial fuel (.integer signal) = some (.ok r, c₁)) ∧
    ∀ fuel r c₁, c.runSerial fuel (.integer signal) = some (.ok r, c₁) →
      (∀ a ∈ (c₁.inject 0 [.integer r]).amplifiers, a.FallsSilent) →
      ∃ enough, ∀ fuel ≥ enough, ∃ c',
        c.runFeedback fuel (.integer signal) = some (.ok r, c') ∧ c'.rounds = 2 := by
  refine ⟨fun fuel r c' h hone => ?_, fun fuel r c₁ h hsilent => feedback_of_serial hc h hsilent⟩
  obtain ⟨m, row, hm, hrow⟩ := hands_of_feedback hc h hone
  obtain ⟨m', hm', hne, rfl⟩ := ofPhases_row hc
  cases hm.symm.trans hm'
  obtain ⟨enough, hrun⟩ := runSerial_of_hands hrow hne
  refine ⟨enough, fun fuel hf => ?_⟩
  obtain ⟨journal, hserial⟩ := hrun fuel hf
  exact ⟨_, hserial⟩

/-- Amplifiers that answer once, in both directions. -/
theorem one_shot_modes_agree_countDown :
    ∃ c, ofPhases countDown ([1, 1, 1].map .integer) = .ok c ∧
      (∃ enough, ∀ fuel ≥ enough, ∃ c₁, c.runSerial fuel (.integer 10) = some (.ok 13, c₁)) ∧
      ∃ enough, ∀ fuel ≥ enough, ∃ c',
        c.runFeedback fuel (.integer 10) = some (.ok 13, c') ∧ c'.rounds = 2 := by
  obtain ⟨c, hc⟩ : ∃ c, ofPhases countDown ([1, 1, 1].map .integer) = .ok c := ⟨_, rfl⟩
  obtain ⟨hserial, hfeedback⟩ := one_shot_modes_agree hc 10
  have hrounds : (c.runFeedback 40 (.integer 10)).map
      (fun after => (after.1, after.2.amplifiers.all (·.machine.emitted = 1))) =
        some (.ok 13, true) := by
    cases hc
    decide +kernel
  have hpass : (c.runSerial 40 (.integer 10)).map (fun after => (after.1,
      (after.2.inject 0 [.integer 13]).amplifiers.all fun a =>
        (a.machine.step Queue.host 40 a.inbox).map (·.result) = some (.ok none))) =
        some (.ok 13, true) := by
    cases hc
    decide +kernel
  obtain ⟨⟨r', c'⟩, h', he'⟩ := Option.map_eq_some_iff.mp hrounds
  obtain ⟨rfl, hone⟩ : r' = .ok 13 ∧ ∀ a ∈ c'.amplifiers, a.machine.emitted = 1 := by
    simpa using he'
  obtain ⟨⟨r, c₁⟩, h₁, he₁⟩ := Option.map_eq_some_iff.mp hpass
  obtain ⟨rfl, hall⟩ := Prod.mk.inj he₁
  refine ⟨c, hc, hserial 40 13 c' h' hone, hfeedback 40 13 c₁ h₁ fun a ha => ?_⟩
  have hnone := of_decide_eq_true (List.all_eq_true.mp hall a ha)
  obtain ⟨o, ho, hout⟩ := Option.map_eq_some_iff.mp hnone
  exact ⟨o, ⟨40, ho⟩, hout⟩

end Chain

end Intcode
