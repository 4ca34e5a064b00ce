import Intcode.Proofs.Turns

namespace Intcode

namespace Chain

/-- The values that rounds of turns emit until all amplifiers have halted. -/
def roundEmissions : (fuel : Nat) → (last : Option Int) → Chain → Emissions
  | 0, _, _ => []
  | fuel + 1, last, c =>
    if c.allHalted then []
    else
      c.emissions (fuel + 1) (List.range c.size) ++
        match c.turns (fuel + 1) (List.range c.size) last with
        | some (.ok last, c) => roundEmissions fuel last { c with rounds := c.rounds + 1 }
        | _ => []

/-- The values that a run round by round emits. -/
def feedbackEmissions (fuel : Nat) (signal : Value) (c : Chain) : Emissions :=
  roundEmissions fuel none (c.inject 0 [signal])

theorem roundsFrom_cases {fuel : Nat} {last : Option Int} {c c' : Chain} {result : Except Error Int}
    (h : c.roundsFrom (fuel + 1) last = some (result, c')) :
    (c.allHalted = true ∧ c' = c ∧ ((∃ r, last = some r ∧ result = .ok r) ∨
        result = .error (.inputExhausted .silentChain))) ∨
      c.allHalted = false ∧ ∃ given c₁,
        c.turns (fuel + 1) (List.range c.size) last = some (given, c₁) ∧
          ((∃ e, given = .error e ∧ result = .error e ∧ c' = c₁) ∨
            ∃ last₁, given = .ok last₁ ∧
              { c₁ with rounds := c₁.rounds + 1 }.roundsFrom fuel last₁ = some (result, c')) := by
  unfold roundsFrom at h
  split at h
  next hh =>
    refine .inl ⟨hh, ?_⟩
    cases last with
    | none =>
      cases h
      exact ⟨rfl, .inr rfl⟩
    | some r =>
      cases h
      exact ⟨rfl, .inl ⟨r, rfl, rfl⟩⟩
  next hh =>
    refine .inr ⟨by simpa using hh, ?_⟩
    cases ht : c.turns (fuel + 1) (List.range c.size) last with
    | none => simp [ht] at h
    | some after =>
      obtain ⟨given, c₁⟩ := after
      refine ⟨given, c₁, rfl, ?_⟩
      cases given with
      | error e =>
        simp only [ht] at h
        cases h
        exact .inl ⟨e, rfl, rfl, rfl⟩
      | ok last₁ =>
        simp only [ht] at h
        exact .inr ⟨last₁, rfl, h⟩

theorem roundsFrom_ok {fuel : Nat} {last : Option Int} {c c' : Chain} {r : Int}
    (h : c.roundsFrom (fuel + 1) last = some (.ok r, c')) :
    (c.allHalted = true ∧ last = some r ∧ c' = c ∧ c.roundEmissions (fuel + 1) last = []) ∨
      ∃ last' c₁, c.turns (fuel + 1) (List.range c.size) last = some (.ok last', c₁) ∧
        { c₁ with rounds := c₁.rounds + 1 }.roundsFrom fuel last' = some (.ok r, c') ∧
        c.roundEmissions (fuel + 1) last = c.emissions (fuel + 1) (List.range c.size) ++
          { c₁ with rounds := c₁.rounds + 1 }.roundEmissions fuel last' := by
  obtain ⟨hh, rfl, ⟨v, hl, hv⟩ | hsilent⟩ | ⟨hh, given, c₁, ht,
    ⟨e, _, he, _⟩ | ⟨last', rfl, hrest⟩⟩ :=
    roundsFrom_cases h
  · cases hv
    exact .inl ⟨hh, hl, rfl, by simp [roundEmissions, hh]⟩
  · cases hsilent
  · cases he
  · exact .inr ⟨last', c₁, ht, hrest, by simp [roundEmissions, hh, ht]⟩

theorem flow_of_rounds {fuel : Nat} {last : Option Int} {c c' : Chain} {r : Int}
    (h : c.roundsFrom fuel last = some (.ok r, c')) :
    Flow c (c.roundEmissions fuel last) c' ∧ c'.allHalted = true := by
  induction fuel generalizing last c with
  | zero => simp [roundsFrom] at h
  | succ fuel ih =>
    rcases roundsFrom_ok h with ⟨hh, _, rfl, he⟩ | ⟨last', c₁, ht, hrest, he⟩
    · rw [he]
      exact ⟨Flow.of_eq rfl, hh⟩
    · obtain ⟨hflow, hh⟩ := ih hrest
      have hround : Flow c₁ [] { c₁ with rounds := c₁.rounds + 1 } := Flow.of_eq rfl
      rw [he]
      exact ⟨(flow_of_turns ht).trans (hround.trans hflow), hh⟩

theorem rounds_last {fuel : Nat} {last : Option Int} {c c' : Chain} {r : Int} (hc : 0 < c.size)
    (h : c.roundsFrom fuel last = some (.ok r, c')) :
    (((c.roundEmissions fuel last).of (c.size - 1)).getLast?.or last) = some r := by
  induction fuel generalizing last c with
  | zero => simp [roundsFrom] at h
  | succ fuel ih =>
    rcases roundsFrom_ok h with ⟨_, hl, rfl, he⟩ | ⟨last', c₁, ht, hrest, he⟩
    · rw [he, hl]
      rfl
    · have hsize : { c₁ with rounds := c₁.rounds + 1 }.size = c.size := (flow_of_turns ht).size
      have hlast := ih (hsize ▸ hc) hrest
      rw [he, Emissions.of_append, List.getLast?_append, Option.or_assoc, ← turns_last hc ht,
        ← hsize]
      exact hlast

theorem flow_of_feedback {fuel : Nat} {signal : Value} {c c' : Chain} {r : Int}
    (h : c.runFeedback fuel signal = some (.ok r, c')) :
    Flow (c.inject 0 [signal]) (c.feedbackEmissions fuel signal) c' ∧ c'.allHalted = true :=
  flow_of_rounds h

theorem stopped_of_allHalted {c : Chain} {j : Nat} {a : Amplifier} (h : c.allHalted = true)
    (ha : c.amplifiers[j]? = some a) : a.machine.status ≠ .running := by
  exact Machine.isHalted_iff.mp (List.all_eq_true.mp h a (List.mem_of_getElem? ha))

theorem load_running {program : List Value} {m : Machine} (h : Machine.load program = .ok m) :
    m.status = .running := by
  obtain ⟨cells, _, rfl⟩ := Machine.load_ok h
  rfl

/-- The inputs of one amplifier: its phase setting, the signal if it is the first, and the values
that reach it. -/
def inputs (phases : List Int) (signal : Int) (log : Emissions) (index : Nat) : List Int :=
  phases[index]?.toList ++ (if index = 0 then [signal] else []) ++
    log.reaching phases.length index

section

variable {program : List Value} {phases : List Int} {signal : Int} {c : Chain}

theorem ofPhases_start (hc : ofPhases program (phases.map .integer) = .ok c) (signal : Int) :
    ∃ m, Machine.load program = .ok m ∧ (c.inject 0 [.integer signal]).size = phases.length ∧
      0 < phases.length ∧ ∀ j a, (c.inject 0 [.integer signal]).amplifiers[j]? = some a →
        a.machine = m ∧ a.inbox.pending = (inputs phases signal [] j).map .integer := by
  obtain ⟨m, hm, hpos, rfl⟩ := ofPhases_ok hc
  rw [List.length_map] at hpos
  refine ⟨m, hm, by simp [Chain.inject, Chain.size], hpos, fun j a ha => ?_⟩
  simp only [Chain.inject, List.getElem?_modify, List.getElem?_map] at ha
  cases hp : phases[j]? with
  | none => simp [hp] at ha
  | some phase =>
    simp only [hp, Option.map_some, Option.map_eq_map, Option.some.injEq] at ha
    rw [← ha]
    by_cases hj : j = 0
    · subst hj
      simp [Amplifier.inject, Queue.inject, inputs, hp]
    · simp [hj, Ne.symm hj, inputs, hp]

/-- In a feedback run each amplifier runs as it would alone on its phase setting, the signal if it
is the first, and all that the amplifier before it emits; the result is the last emission of the
final amplifier. -/
theorem feedback_runs_standalone {r : Int} {fuel : Nat} {c' : Chain}
    (hc : ofPhases program (phases.map .integer) = .ok c)
    (h : c.runFeedback fuel (.integer signal) = some (.ok r, c')) :
    ∃ m, Machine.load program = .ok m ∧ c'.size = phases.length ∧
      (∀ j a, c'.amplifiers[j]? = some a → a.machine.status = .halted ∧
        ∃ enough, ∀ fuel' ≥ enough,
          m.run fuel'
              ((inputs phases signal (c.feedbackEmissions fuel (.integer signal)) j).map .integer) =
            some ⟨.ok ((c.feedbackEmissions fuel (.integer signal)).of j), a.machine,
              a.inbox.pending⟩) ∧
      ((c.feedbackEmissions fuel (.integer signal)).of (phases.length - 1)).getLast? = some r := by
  obtain ⟨m, hm, hsize, hpos, hstart⟩ := ofPhases_start hc signal
  obtain ⟨hflow, hhalt⟩ := flow_of_feedback h
  refine ⟨m, hm, hflow.size.trans hsize, fun j a ha => ?_, ?_⟩
  · obtain ⟨a₀, taken, ha₀, hp, ht⟩ := hflow.amplifier j a ha
    obtain ⟨rfl, hq⟩ := hstart j a₀ ha₀
    have hr := load_running hm
    have hh := (hp.status hr).resolve_left (stopped_of_allHalted hhalt ha)
    refine ⟨hh, ?_⟩
    obtain ⟨enough, he⟩ := Machine.run_of_path hp hr hh a.inbox.pending
    refine ⟨enough, fun fuel' hf => ?_⟩
    rw [← he fuel' hf, ← ht, hq, hsize]
    simp [inputs]
  · have hl := rounds_last (hsize ▸ hpos) h
    rw [hsize, Option.or_none] at hl
    exact hl

end

/-- A program that adds its phase setting to each of two values. -/
def addTwice : List Value :=
  [3, 31, 3, 32, 1, 31, 32, 32, 4, 32, 3, 32, 1, 31, 32, 32, 4, 32, 99].map .integer

theorem feedback_runs_standalone_addTwice :
    ∃ c c' m a, ofPhases addTwice ([2, 3].map .integer) = .ok c ∧
      c.runFeedback 20 (.integer 1) = some (.ok 11, c') ∧ Machine.load addTwice = .ok m ∧
      c'.amplifiers[0]? = some a ∧ ∃ fuel,
        m.run fuel ([2, 1, 6, 11].map .integer) =
          some ⟨.ok [3, 8], a.machine, a.inbox.pending⟩ := by
  obtain ⟨c, hc⟩ : ∃ c, ofPhases addTwice ([2, 3].map .integer) = .ok c := ⟨_, rfl⟩
  have hrun : (c.runFeedback 20 (.integer 1)).map (·.1) = some (.ok 11) := by
    cases hc
    decide +kernel
  obtain ⟨⟨r, c'⟩, hr, he⟩ := Option.map_eq_some_iff.mp hrun
  cases he
  obtain ⟨m, hm, hsize, halone, _⟩ := feedback_runs_standalone hc hr
  have hlog : c.feedbackEmissions 20 (.integer 1) = [(0, 3), (1, 6), (0, 8), (1, 11)] := by
    cases hc
    decide +kernel
  obtain ⟨a, ha⟩ := getElem?_of_lt (hsize.symm ▸ Nat.zero_lt_two : 0 < c'.size)
  obtain ⟨enough, halone⟩ := (halone 0 a ha).2
  have hrun := halone enough (Nat.le_refl enough)
  rw [hlog] at hrun
  exact ⟨c, c', m, a, hc, hr, hm, ha, enough, hrun⟩

end Chain

end Intcode
