import Intcode.Proofs.Accounts
import Intcode.Proofs.Status

namespace Intcode

namespace Machine

/-- What a turn makes of a machine: one that has halted stays as it is, and a running one emits one
value or halts. -/
inductive TakesTurn (m : Machine) : Machine → Prop
  | idle : m.isHalted = true → TakesTurn m m
  | emits {m' : Machine} : m.status = .running → m'.status = .running →
      m'.emitted = m.emitted + 1 → TakesTurn m m'
  | halts {m' : Machine} : m.status = .running → m'.status = .halted →
      m'.emitted = m.emitted → TakesTurn m m'

/-- After so many rounds the machine runs and has emitted one value in each, or it has halted,
without a fault, in one of them. -/
def InStep (rounds : Nat) (m : Machine) : Prop :=
  m.status = .running ∧ m.emitted = rounds ∨ m.status = .halted ∧ m.emitted < rounds

theorem TakesTurn.inStep {m m' : Machine} {rounds : Nat} (h : m.TakesTurn m')
    (hm : m.InStep rounds) : m'.InStep (rounds + 1) := by
  cases h with
  | idle hh =>
    have hstopped : m.status ≠ .running := isHalted_iff.mp hh
    obtain ⟨hr, _⟩ | ⟨hs, hlt⟩ := hm
    · exact absurd hr hstopped
    · exact .inr ⟨hs, by omega⟩
  | emits hr hr' he =>
    obtain ⟨_, hcount⟩ | ⟨hs, _⟩ := hm
    · exact .inl ⟨hr', by omega⟩
    · cases hr.symm.trans hs
  | halts hr hh he =>
    obtain ⟨_, hcount⟩ | ⟨hs, _⟩ := hm
    · exact .inr ⟨hh, by omega⟩
    · cases hr.symm.trans hs

theorem TakesTurn.of_halted {m m' : Machine} (h : m.TakesTurn m') (hh : m.isHalted = true) :
    m' = m := by
  cases h with
  | idle => rfl
  | emits hr | halts hr => simp [isHalted, isRunning, hr] at hh

theorem TakesTurn.emitted_of_stopped {m m' : Machine} (h : m.TakesTurn m')
    (hs : m'.status ≠ .running) : m'.emitted = m.emitted := by
  cases h with
  | idle => rfl
  | emits _ hr => exact absurd hr hs
  | halts _ _ he => exact he

section

variable {σ : Type} {host : Host σ} {fuel : Nat} {m : Machine} {s : σ} {o : Outcome σ (Option Int)}

theorem step_takesTurn (h : m.step host fuel s = some o) (hr : m.status = .running)
    {out : Option Int} (hout : o.result = .ok out) : m.TakesTurn o.machine := by
  have hemitted := step_emitted h
  rw [hout] at hemitted
  cases out with
  | some v =>
    have hrun := isRunning_iff.mp (step_output h hout)
    exact .emits hr hrun hemitted
  | none =>
    have hstop : o.machine.status ≠ .running := isRunning_eq_false.mp (step_halted h hout)
    obtain hsame | ⟨_, ⟨hh, _⟩ | ⟨f, _, hf⟩⟩ := step_settles h
    · exact absurd (hsame.trans hr) hstop
    · exact .halts hr hh hemitted
    · cases hout.symm.trans hf

theorem stepInstruction_ne_halted (host : Host σ) (m : Machine) (s : σ) (hr : m.status = .running)
    (cause : Option Fault) : (m.stepInstruction host s).result ≠ .error (.halted cause) := by
  intro he
  obtain ⟨m', hm, _⟩ | ⟨w, d, next, _, _, ⟨refusal, _, hw⟩ | ⟨value, _, hv⟩⟩ :=
    stepInstruction_failed he
  · obtain ⟨_, hs, _⟩ | ⟨_, _, f, hf, _⟩ := move_failed hm
    · exact hs hr
    · exact ofFault_ne_halted f cause hf.symm
  · cases refusal <;> cases hw
  · cases Value.toCell_error hv

theorem step_ne_halted (h : m.step host fuel s = some o) (hr : m.status = .running)
    (cause : Option Fault) : o.result ≠ .error (.halted cause) := by
  have hwatched (m : Machine) (s : σ) (hr : m.status = .running) :
      (m.stepWatched host s).result ≠ .error (.halted cause) :=
    stepInstruction_ne_halted host m s hr cause
  refine step_induction
    (motive := fun m _ o => m.status = .running → o.result ≠ .error (.halted cause))
    (fun m s _ hr => hwatched m s hr) (fun m s o _ hr' ih _ => ?_) h hr
  exact ih (isRunning_iff.mp hr')

end

end Machine

theorem Amplifier.step_takesTurn {fuel : Nat} {a a' : Amplifier} {journal journal' : Journal}
    {out : Option Int} (h : a.step fuel journal = some (.ok out, a', journal'))
    (hh : a.machine.isHalted = false) : a.machine.TakesTurn a'.machine := by
  obtain ⟨o, ho, he⟩ := Option.map_eq_some_iff.mp h
  obtain ⟨hr, rfl, _⟩ : o.result = .ok out ∧ ⟨o.machine, o.host.1⟩ = a' ∧ o.host.2 = journal' := by
    simpa using he
  exact Machine.step_takesTurn ho (Machine.isHalted_eq_false.mp hh) hr

theorem Amplifier.step_of_halted (a : Amplifier) (hh : a.machine.isHalted = true) (fuel : Nat)
    (journal : Journal) :
    ∃ journal', a.step (fuel + 1) journal = some (.error (.halted a.machine.fault?), a, journal') :=
  ⟨_, congrArg (Option.map _) (Machine.step_of_halted hh fuel (a.inbox, journal))⟩

namespace Chain

/-- Rounds of turns, each of them started while an amplifier runs and ended without a failure, with
the last signal of the final amplifier before and after. -/
inductive Rounds : Option Int → Chain → Option Int → Chain → Prop
  | refl (last : Option Int) (c : Chain) : Rounds last c last c
  | round {last last₁ last' : Option Int} {c c₁ c' : Chain} {fuel : Nat} :
      c.allHalted = false → c.turns fuel (List.range c.size) last = some (.ok last₁, c₁) →
      Rounds last₁ { c₁ with rounds := c₁.rounds + 1 } last' c' → Rounds last c last' c'

section

variable {c c' : Chain} {fuel : Nat} {last last' : Option Int}

theorem turn_machines {index : Nat} {out : Option Int} (h : c.turn fuel index = some (.ok out, c'))
    {j : Nat} {a' : Amplifier} (ha' : c'.amplifiers[j]? = some a') :
    ∃ a, c.amplifiers[j]? = some a ∧
      if index = j then a.machine.TakesTurn a'.machine else a'.machine = a.machine := by
  obtain ⟨rfl, _, hh⟩ | ⟨a, b, journal', ha, hh, hs, hc, _⟩ := turn_cases h
  · refine ⟨a', ha', ?_⟩
    by_cases hj : index = j
    · subst hj
      rw [if_pos rfl]
      exact .idle (hh a' ha')
    · rw [if_neg hj]
  · rw [hc, List.getElem?_modify] at ha'
    obtain ⟨b', hb', rfl⟩ := Option.map_eq_some_iff.mp ha'
    obtain ⟨hm, _⟩ := Amplifier.inject_if ((index + 1) % c.size = j) b'
      ((Machine.emissionOf (.ok out)).map .integer)
    rw [hm]
    rw [List.getElem?_set] at hb'
    by_cases hj : index = j
    · subst hj
      obtain ⟨_, rfl⟩ : index < c.amplifiers.length ∧ b = b' := by simpa using hb'
      refine ⟨a, ha, ?_⟩
      rw [if_pos rfl]
      exact Amplifier.step_takesTurn hs hh
    · rw [if_neg hj] at hb'
      exact ⟨b', hb', by rw [if_neg hj]⟩

theorem turns_machines {schedule : List Nat}
    (h : c.turns fuel schedule last = some (.ok last', c')) (hn : schedule.Nodup) {j : Nat}
    {a' : Amplifier} (ha' : c'.amplifiers[j]? = some a') :
    ∃ a, c.amplifiers[j]? = some a ∧
      if j ∈ schedule then a.machine.TakesTurn a'.machine else a'.machine = a.machine := by
  induction schedule generalizing last c with
  | nil =>
    cases h
    exact ⟨a', ha', by simp⟩
  | cons index rest ih =>
    obtain ⟨out, c₁, hturn, hrest, _⟩ := turns_cons h
    obtain ⟨hnew, hn⟩ := List.nodup_cons.mp hn
    obtain ⟨a₁, ha₁, hlater⟩ := ih hrest hn
    obtain ⟨a, ha, hfirst⟩ := turn_machines hturn ha₁
    refine ⟨a, ha, ?_⟩
    by_cases hj : index = j
    · subst hj
      rw [if_neg hnew] at hlater
      rw [if_pos rfl] at hfirst
      rw [if_pos List.mem_cons_self, hlater]
      exact hfirst
    · rw [if_neg hj] at hfirst
      rw [hfirst] at hlater
      simpa [List.mem_cons, Ne.symm hj] using hlater

theorem round_machines (h : c.turns fuel (List.range c.size) last = some (.ok last', c')) {j : Nat}
    {a' : Amplifier} (ha' : c'.amplifiers[j]? = some a') :
    ∃ a, c.amplifiers[j]? = some a ∧ a.machine.TakesTurn a'.machine := by
  obtain ⟨a, ha, hturn⟩ := turns_machines h List.nodup_range ha'
  rw [if_pos (List.mem_range.mpr (getElem?_lt ha))] at hturn
  exact ⟨a, ha, hturn⟩

theorem turns_rounds {schedule : List Nat} {result : Except Error (Option Int)}
    (h : c.turns fuel schedule last = some (result, c')) : c'.rounds = c.rounds := by
  have hb := (balance_of_turns h).rounds
  rw [turnsLedger_passes] at hb
  exact hb

/-- The amplifiers of the chain are in step with its counter of rounds. -/
def InStep (c : Chain) : Prop :=
  ∀ (j : Nat) (a : Amplifier), c.amplifiers[j]? = some a → a.machine.InStep c.rounds

theorem InStep.round {c₁ : Chain} (hc : c.InStep)
    (h : c.turns fuel (List.range c.size) last = some (.ok last', c₁)) :
    InStep { c₁ with rounds := c₁.rounds + 1 } := by
  intro j a₁ ha₁
  obtain ⟨a, ha, hturn⟩ := round_machines h ha₁
  have hstep := hturn.inStep (hc j a ha)
  rwa [← turns_rounds h] at hstep

theorem Rounds.inStep (h : Rounds last c last' c') (hc : c.InStep) : c'.InStep := by
  induction h with
  | refl => exact hc
  | round _ ht _ ih => exact ih (hc.round ht)

/-- An amplifier that has halted has the same machine after all later rounds. -/
theorem Rounds.halted_stays (h : Rounds last c last' c') {j : Nat} {a' : Amplifier}
    (ha' : c'.amplifiers[j]? = some a') :
    ∃ a, c.amplifiers[j]? = some a ∧ (a.machine.isHalted = true → a'.machine = a.machine) := by
  induction h with
  | refl => exact ⟨a', ha', fun _ => rfl⟩
  | round _ ht _ ih =>
    obtain ⟨a₁, ha₁, hlater⟩ := ih ha'
    obtain ⟨a, ha, hturn⟩ := round_machines ht ha₁
    refine ⟨a, ha, fun hh => ?_⟩
    have hsame := hturn.of_halted hh
    exact (hlater (hsame.symm ▸ hh)).trans hsame

theorem not_allHalted (h : c.allHalted = false) :
    ∃ (j : Nat) (a : Amplifier), c.amplifiers[j]? = some a ∧ a.machine.status = .running := by
  have hsome : ¬ ∀ a ∈ c.amplifiers, a.machine.isHalted = true := by
    intro hall
    have htrue := List.all_eq_true.mpr hall
    rw [allHalted, htrue] at h
    cases h
  push Not at hsome
  obtain ⟨a, hmem, hrun⟩ := hsome
  obtain ⟨j, hj⟩ := List.getElem?_of_mem hmem
  exact ⟨j, a, hj, Machine.isHalted_eq_false.mp (by simpa using hrun)⟩

/-- When all amplifiers have come to their end, one that came to it in the last round has emitted
one value in each round but that one. -/
theorem Rounds.last_halts (h : Rounds last c last' c') (hc : c.InStep) (hrun : c.allHalted = false)
    (hh : c'.allHalted = true) :
    ∃ (j : Nat) (a : Amplifier), c'.amplifiers[j]? = some a ∧
      c'.rounds = 1 + a.machine.emitted := by
  induction h with
  | refl => simp [hrun] at hh
  | @round last last₁ last' c c₁ c' fuel _ ht hrest ih =>
    cases hh₁ : Chain.allHalted { c₁ with rounds := c₁.rounds + 1 } with
    | false => exact ih (hc.round ht) hh₁ hh
    | true =>
      have hend : c' = { c₁ with rounds := c₁.rounds + 1 } := by
        cases hrest with
        | refl => rfl
        | round hr => simp [hh₁] at hr
      obtain ⟨j, a, ha, hr⟩ := not_allHalted hrun
      have hsize : c₁.size = c.size := (balance_of_turns ht).size
      obtain ⟨a₁, ha₁⟩ := getElem?_of_lt (hsize.symm ▸ getElem?_lt ha)
      obtain ⟨a₀, ha₀, hturn⟩ := round_machines ht ha₁
      cases ha.symm.trans ha₀
      have hcount : a.machine.emitted = c.rounds := by
        obtain ⟨_, he⟩ | ⟨hs, _⟩ := hc j a ha
        · exact he
        · cases hr.symm.trans hs
      have hemitted := hturn.emitted_of_stopped (stopped_of_allHalted hh₁ ha₁)
      refine ⟨j, a₁, hend ▸ ha₁, ?_⟩
      rw [hend, hemitted, hcount, ← turns_rounds ht]
      exact Nat.add_comm _ _

theorem rounds_of_roundsFrom {r : Int} (h : c.roundsFrom fuel last = some (.ok r, c')) :
    Rounds last c (some r) c' ∧ c'.allHalted = true := by
  induction fuel generalizing last c with
  | zero => simp [roundsFrom] at h
  | succ fuel ih =>
    obtain ⟨hh, rfl, ⟨v, rfl, hv⟩ | hsilent⟩ | ⟨hh, given, c₁, ht,
      ⟨e, _, he, _⟩ | ⟨last₁, rfl, hrest⟩⟩ :=
      roundsFrom_cases h
    · cases hv
      exact ⟨.refl _ _, hh⟩
    · cases hsilent
    · cases he
    · obtain ⟨hrounds, hend⟩ := ih hrest
      exact ⟨.round hh ht hrounds, hend⟩

theorem turn_ne_halted {index : Nat} {cause : Option Fault} :
    c.turn fuel index ≠ some (.error (.halted cause), c') := by
  intro h
  obtain ⟨_, hok, _⟩ | ⟨a, a', journal', _, hh, hs, _⟩ := turn_cases h
  · cases hok
  · obtain ⟨o, ho, he⟩ := Option.map_eq_some_iff.mp hs
    have hrun := Machine.isHalted_eq_false.mp hh
    exact Machine.step_ne_halted ho hrun cause (congrArg Prod.fst he)

theorem turns_ne_halted {schedule : List Nat} {cause : Option Fault} :
    c.turns fuel schedule last ≠ some (.error (.halted cause), c') := by
  intro h
  induction schedule generalizing last c with
  | nil => cases h
  | cons index rest ih =>
    rw [turns] at h
    cases ht : c.turn fuel index with
    | none => simp [ht] at h
    | some after =>
      obtain ⟨given, c₁⟩ := after
      cases given with
      | error e =>
        simp only [ht] at h
        cases h
        exact turn_ne_halted ht
      | ok out =>
        simp only [ht] at h
        exact ih h

theorem roundsFrom_ne_halted {cause : Option Fault} :
    c.roundsFrom fuel last ≠ some (.error (.halted cause), c') := by
  intro h
  induction fuel generalizing last c with
  | zero => simp [roundsFrom] at h
  | succ fuel ih =>
    obtain ⟨_, _, ⟨_, _, hr⟩ | hr⟩ | ⟨_, given, c₁, ht, ⟨e, rfl, he, _⟩ | ⟨last₁, _, hrest⟩⟩ :=
      roundsFrom_cases h
    · cases hr
    · cases hr
    · cases he
      exact turns_ne_halted ht
    · exact ih hrest

theorem start_machines {program phases : List Value} (hc : ofPhases program phases = .ok c)
    (signal : Value) : ∃ m, Machine.load program = .ok m ∧ 0 < (c.inject 0 [signal]).size ∧
      ∀ (j : Nat) (a : Amplifier), (c.inject 0 [signal]).amplifiers[j]? = some a →
        a.machine = m := by
  obtain ⟨m, hm, hpos, rfl⟩ := ofPhases_ok hc
  refine ⟨m, hm, by simpa [Chain.inject, Chain.size] using hpos, fun j a ha => ?_⟩
  simp only [Chain.inject, List.getElem?_modify, List.getElem?_map] at ha
  obtain ⟨b, hb, rfl⟩ := Option.map_eq_some_iff.mp ha
  obtain ⟨phase, _, rfl⟩ := Option.map_eq_some_iff.mp hb
  exact (Amplifier.inject_if (0 = j) _ [signal]).1

theorem inStep_start {program phases : List Value} (hc : ofPhases program phases = .ok c)
    (signal : Value) : (c.inject 0 [signal]).InStep ∧ (c.inject 0 [signal]).allHalted = false := by
  obtain ⟨m, hm, hpos, hmachine⟩ := start_machines hc signal
  have hrounds : (c.inject 0 [signal]).rounds = 0 := by
    obtain ⟨_, _, _, rfl⟩ := ofPhases_ok hc
    rfl
  obtain ⟨cells, _, rfl⟩ := Machine.load_ok hm
  refine ⟨fun j a ha => .inl ?_, ?_⟩
  · rw [hmachine j a ha, hrounds]
    exact ⟨rfl, rfl⟩
  · by_contra hh
    obtain ⟨a, ha⟩ := getElem?_of_lt hpos
    have hstopped := stopped_of_allHalted (by simpa using hh) ha
    rw [hmachine 0 a ha] at hstopped
    exact hstopped rfl

theorem InStep.emitted_lt (hc : c.InStep) (hh : c.allHalted = true) {a : Amplifier}
    (ha : a ∈ c.amplifiers) : a.machine.emitted < c.rounds := by
  obtain ⟨j, hj⟩ := List.getElem?_of_mem ha
  obtain ⟨hr, _⟩ | ⟨_, hlt⟩ := hc j a hj
  · exact absurd hr (stopped_of_allHalted hh hj)
  · exact hlt

/-- Feedback rounds run in lockstep. After every completed round the amplifiers still running have
emitted one value in each round, and those that have halted fewer and are not run again; so a run
takes one round more than the most outputs of an amplifier. -/
theorem feedback_lockstep {program phases : List Value} {c : Chain}
    (hc : ofPhases program phases = .ok c) (signal : Value) :
    (∀ last c₁, Rounds none (c.inject 0 [signal]) last c₁ →
      c₁.InStep ∧
      ∀ last' c₂, Rounds last c₁ last' c₂ → ∀ (j : Nat) (a₂ : Amplifier),
        c₂.amplifiers[j]? = some a₂ → ∃ a₁, c₁.amplifiers[j]? = some a₁ ∧
          (a₁.machine.isHalted = true → a₂.machine = a₁.machine)) ∧
    (∀ (a : Amplifier) fuel journal, a.machine.isHalted = true →
      ∃ journal', a.step (fuel + 1) journal =
        some (.error (.halted a.machine.fault?), a, journal')) ∧
    (∀ fuel cause c', c.runFeedback fuel signal ≠ some (.error (.halted cause), c')) ∧
    ∀ fuel r c', c.runFeedback fuel signal = some (.ok r, c') →
      Rounds none (c.inject 0 [signal]) (some r) c' ∧
      ∃ most, (c'.amplifiers.map (·.machine.emitted)).max? = some most ∧ c'.rounds = 1 + most := by
  obtain ⟨hstart, hrun⟩ := inStep_start hc signal
  refine ⟨fun last c₁ h₁ => ⟨h₁.inStep hstart, fun last' c₂ h₂ j a₂ ha₂ => h₂.halted_stays ha₂⟩,
    fun a fuel journal hh => a.step_of_halted hh fuel journal,
    fun fuel cause c' => roundsFrom_ne_halted, fun fuel r c' h => ?_⟩
  obtain ⟨hrounds, hh⟩ := rounds_of_roundsFrom h
  have hstep := hrounds.inStep hstart
  obtain ⟨j, a, ha, hmost⟩ := hrounds.last_halts hstart hrun hh
  refine ⟨hrounds, a.machine.emitted, ?_, hmost⟩
  refine List.max?_eq_some_iff.mpr ⟨?_, fun emitted hmem => ?_⟩
  · exact List.mem_map.mpr ⟨a, List.mem_of_getElem? ha, rfl⟩
  · obtain ⟨b, hb, rfl⟩ := List.mem_map.mp hmem
    have hlt := hstep.emitted_lt hh hb
    omega

end

/-- A program that answers as often as its phase setting says, each time with one more than it was
given, and then halts. -/
def countDown : List Value :=
  [3, 30, 3, 31, 1001, 31, 1, 31, 4, 31, 1001, 30, -1, 30, 1005, 30, 2, 99].map .integer

/-- Amplifiers that come to their end in different rounds. -/
theorem feedback_lockstep_countDown :
    ∃ c c', ofPhases countDown ([3, 2, 2].map .integer) = .ok c ∧
      c.runFeedback 40 (.integer 10) = some (.ok 16, c') ∧
      c'.amplifiers.map (·.machine.emitted) = [3, 2, 2] ∧ c'.rounds = 4 := by
  obtain ⟨c, hc⟩ : ∃ c, ofPhases countDown ([3, 2, 2].map .integer) = .ok c := ⟨_, rfl⟩
  have hrun : (c.runFeedback 40 (.integer 10)).map
      (fun after => (after.1, after.2.amplifiers.map (·.machine.emitted))) =
        some (.ok 16, [3, 2, 2]) := by
    cases hc
    decide +kernel
  obtain ⟨⟨r, c'⟩, h, he⟩ := Option.map_eq_some_iff.mp hrun
  obtain ⟨rfl, hemitted⟩ : r = .ok 16 ∧ c'.amplifiers.map (·.machine.emitted) = [3, 2, 2] := by
    simpa using he
  obtain ⟨_, most, hmost, hrounds⟩ := (feedback_lockstep hc (.integer 10)).2.2.2 40 16 c' h
  rw [hemitted] at hmost
  cases hmost
  exact ⟨c, c', hc, h, hemitted, hrounds⟩

end Chain

end Intcode
