import Intcode.Proofs.Fatal
import Intcode.Proofs.Indifference

namespace Intcode

namespace Machine

/-- Alone on a queue, the machine comes to its next output or to an end. -/
def StepsTo (m : Machine) (q : Queue) (o : Outcome Queue (Option Int)) : Prop :=
  ∃ fuel, m.step Queue.host fuel q = some o

/-- Machines like this one, in a row, are stepped once each, on a phase setting and a signal: the
first on the given signal, each later one on the output of the one before. Known are the last output
and what the steps leave. -/
inductive Hands (m : Machine) :
    (signal : Int) → (phases : List Int) → (last : Int) → (row : List Amplifier) → Prop
  | done (signal : Int) : Hands m signal [] signal []
  | pass {signal phase v last : Int} {phases : List Int} {o : Outcome Queue (Option Int)}
      {row : List Amplifier} :
      m.StepsTo ⟨[.integer phase, .integer signal]⟩ o → o.result = .ok (some v) →
      Hands m v phases last row →
      Hands m signal (phase :: phases) last (⟨o.machine, o.host⟩ :: row)

def StepsEnd (m : Machine) (signal : Int) (phases : List Int) : Prop :=
  ∀ before phase after s row, phases = before ++ phase :: after → m.Hands signal before s row →
    ∃ o, m.StepsTo ⟨[.integer phase, .integer s]⟩ o

theorem StepsEnd.tail {m : Machine} {signal phase v : Int} {phases : List Int}
    {o : Outcome Queue (Option Int)} (h : m.StepsEnd signal (phase :: phases))
    (hstep : m.StepsTo ⟨[.integer phase, .integer signal]⟩ o) (hout : o.result = .ok (some v)) :
    m.StepsEnd v phases :=
  fun before phase' after s _ hsplit hrow =>
    h (phase :: before) phase' after s _ (congrArg (phase :: ·) hsplit) (.pass hstep hout hrow)

theorem Hands.length {m : Machine} {signal last : Int} {phases : List Int} {row : List Amplifier}
    (h : m.Hands signal phases last row) : row.length = phases.length := by
  induction h with
  | done => rfl
  | pass _ _ _ ih => rw [List.length_cons, List.length_cons, ih]

end Machine

namespace Amplifier

/-- An amplifier that has its phase setting before it and nothing else. -/
def fresh (m : Machine) (phase : Int) : Amplifier := ⟨m, ⟨[.integer phase]⟩⟩

theorem step_of_stepsTo {a : Amplifier} {o : Outcome Queue (Option Int)}
    (h : a.machine.StepsTo a.inbox o) : ∃ enough, ∀ fuel ≥ enough, ∀ journal, ∃ journal',
      a.step fuel journal = some (o.result, ⟨o.machine, o.host⟩, journal') := by
  obtain ⟨enough, ho⟩ := h
  exact ⟨enough, fun fuel hf journal => step_iff_alone.mpr (Machine.step_mono ho hf)⟩

theorem stepsTo_of_step {fuel : Nat} {a a' : Amplifier} {journal journal' : Journal}
    {result : Except Error (Option Int)} (h : a.step fuel journal = some (result, a', journal')) :
    a.machine.StepsTo a.inbox ⟨result, a'.machine, a'.inbox⟩ :=
  ⟨fuel, step_iff_alone.mp ⟨journal', h⟩⟩

end Amplifier

namespace Chain

open Amplifier (fresh)

/-- The error of a serial run in which a step with this result gives no signal. -/
def silence : Except Error (Option Int) → Option Error
  | .error e => some e
  | .ok none => some (.inputExhausted .silentAmplifier)
  | .ok (some _) => none

theorem signal_of_no_silence {result : Except Error (Option Int)} (h : silence result = none) :
    ∃ v, result = .ok (some v) := by
  rcases result with e | _ | v
  · cases h
  · cases h
  · exact ⟨v, rfl⟩

theorem ofPhases_row {program : List Value} {phases : List Int} {c : Chain}
    (hc : ofPhases program (phases.map .integer) = .ok c) :
    ∃ m, Machine.load program = .ok m ∧ phases ≠ [] ∧
      c = { amplifiers := phases.map (fresh m) } := by
  obtain ⟨m, hm, hpos, rfl⟩ := ofPhases_ok hc
  refine ⟨m, hm, fun hnil => by simp [hnil] at hpos, ?_⟩
  rw [List.map_map]
  rfl

section

variable {fuel : Nat} {signal : Value} {a a' : Amplifier} {rest : List Amplifier}
  {journal journal' : Journal}

theorem relay_of_signal {v : Int}
    (h : (a.inject [signal]).step fuel journal = some (.ok (some v), a', journal'))
    (hne : rest ≠ []) :
    relay fuel signal (a :: rest) journal =
      (relay fuel (.integer v) rest journal').map fun (result, rest, journal) =>
        (result, a' :: rest, journal) := by
  rw [relay, h]
  cases rest with
  | nil => exact absurd rfl hne
  | cons b rest => rfl

theorem relay_of_silence {result : Except Error (Option Int)} {e : Error}
    (h : (a.inject [signal]).step fuel journal = some (result, a', journal'))
    (he : silence result = some e) :
    relay fuel signal (a :: rest) journal = some (.error e, a' :: rest, journal') := by
  rw [relay, h]
  rcases result with e' | _ | v
  · cases he
    rfl
  · cases he
    rfl
  · cases he

end

section

variable {m : Machine} {signal last : Int} {phases : List Int} {row : List Amplifier}

theorem step_of_handed {phase : Int} {o : Outcome Queue (Option Int)}
    (h : m.StepsTo ⟨[.integer phase, .integer signal]⟩ o) :
    ∃ enough, ∀ fuel ≥ enough, ∀ journal, ∃ journal',
      ((fresh m phase).inject [.integer signal]).step fuel journal =
        some (o.result, ⟨o.machine, o.host⟩, journal') :=
  Amplifier.step_of_stepsTo h

theorem relay_of_all_hand (h : m.Hands signal phases last row) (hne : phases ≠ []) :
    ∃ enough, ∀ fuel ≥ enough, ∀ journal, ∃ journal',
      relay fuel (.integer signal) (phases.map (fresh m)) journal =
        some (.ok last, row, journal') := by
  induction h with
  | done => exact absurd rfl hne
  | @pass signal phase v last phases o row hstep hout hrest ih =>
    obtain ⟨enough, hfirst⟩ := step_of_handed hstep
    by_cases hlast : phases = []
    · subst hlast
      cases hrest
      refine ⟨enough, fun fuel hf journal => ?_⟩
      obtain ⟨journal₁, hs⟩ := hfirst fuel hf journal
      rw [hout] at hs
      exact ⟨journal₁, by rw [List.map_cons, List.map_nil, relay, hs]⟩
    · obtain ⟨enough', hlater⟩ := ih hlast
      refine ⟨max enough enough', fun fuel hf journal => ?_⟩
      obtain ⟨journal₁, hs⟩ := hfirst fuel (by omega) journal
      obtain ⟨journal₂, hrest⟩ := hlater fuel (by omega) journal₁
      rw [hout] at hs
      refine ⟨journal₂, ?_⟩
      rw [List.map_cons, relay_of_signal hs (by simpa using hlast), hrest]
      rfl

theorem relay_of_hands (h : m.Hands signal phases last row) (rest : List Amplifier)
    (hne : rest ≠ []) :
    ∃ enough, ∀ fuel ≥ enough, ∀ journal, ∃ journal',
      relay fuel (.integer signal) (phases.map (fresh m) ++ rest) journal =
        (relay fuel (.integer last) rest journal').map fun (result, rest, journal) =>
          (result, row ++ rest, journal) := by
  by_cases hnil : phases = []
  · subst hnil
    cases h
    exact ⟨0, fun fuel _ journal => ⟨journal, (congrFun Option.map_id _).symm⟩⟩
  · obtain ⟨enough, hrelay⟩ := relay_of_all_hand h hnil
    refine ⟨enough, fun fuel hf journal => ?_⟩
    obtain ⟨journal', hr⟩ := hrelay fuel hf journal
    exact ⟨journal', relay_append hr (Nat.le_refl fuel) hne⟩

theorem runSerial_of_hands (h : m.Hands signal phases last row) (hne : phases ≠ []) :
    ∃ enough, ∀ fuel ≥ enough, ∃ journal,
      ({ amplifiers := phases.map (fresh m) } : Chain).runSerial fuel (.integer signal) =
        some (.ok last, ⟨row, 1, journal⟩) := by
  obtain ⟨enough, hrelay⟩ := relay_of_all_hand h hne
  refine ⟨enough, fun fuel hf => ?_⟩
  obtain ⟨journal, hr⟩ := hrelay fuel hf #[]
  exact ⟨journal, by simp [runSerial, hr]⟩

theorem hands_of_relay {fuel : Nat} {journal journal' : Journal}
    (h : relay fuel (.integer signal) (phases.map (fresh m)) journal =
      some (.ok last, row, journal')) :
    m.Hands signal phases last row := by
  induction phases generalizing signal row journal journal' with
  | nil => cases h
  | cons phase phases ih =>
    rw [List.map_cons] at h
    cases hs : ((fresh m phase).inject [.integer signal]).step fuel journal with
    | none => simp [relay, hs] at h
    | some stepped =>
      obtain ⟨result, a', journal₁⟩ := stepped
      have hstep := Amplifier.stepsTo_of_step hs
      rcases result with e | _ | v
      · simp [relay, hs] at h
      · simp [relay, hs] at h
      · by_cases hlast : phases = []
        · subst hlast
          simp only [List.map_nil, relay, hs] at h
          cases h
          exact .pass hstep rfl (.done _)
        · rw [relay_of_signal hs (by simpa using hlast)] at h
          obtain ⟨⟨result, row', journal₂⟩, hrest, he⟩ := Option.map_eq_some_iff.mp h
          cases he
          exact .pass hstep rfl (ih hrest)

theorem hands_of_runSerial {fuel : Nat} {c : Chain}
    (h : ({ amplifiers := phases.map (fresh m) } : Chain).runSerial fuel (.integer signal) =
      some (.ok last, c)) : m.Hands signal phases last c.amplifiers := by
  obtain ⟨⟨result, amplifiers, journal⟩, hrelay, he⟩ := Option.map_eq_some_iff.mp h
  cases he
  exact hands_of_relay hrelay

end

/-- After a row that hands a signal on, a step on that signal gives none, which is this error. -/
structure Breaks (m : Machine) (signal : Int) (before : List Int) (phase : Int)
    (row : List Amplifier) (o : Outcome Queue (Option Int)) (e : Error) : Prop where
  reached : ∃ s, m.Hands signal before s row ∧ m.StepsTo ⟨[.integer phase, .integer s]⟩ o
  silent : silence o.result = some e

/-- If the steps come to an end, then all of them give a signal or one is the first that does
not. -/
theorem hands_or_breaks {m : Machine} {signal : Int} {phases : List Int}
    (hends : m.StepsEnd signal phases) :
    (∃ last row, m.Hands signal phases last row) ∨
      ∃ before phase after row o e, phases = before ++ phase :: after ∧
        Breaks m signal before phase row o e := by
  induction phases generalizing signal with
  | nil => exact .inl ⟨signal, [], .done signal⟩
  | cons phase phases ih =>
    obtain ⟨o, hstep⟩ := hends [] phase phases signal [] rfl (.done signal)
    cases hsilent : silence o.result with
    | some e =>
      exact .inr ⟨[], phase, phases, [], o, e, rfl, ⟨signal, .done signal, hstep⟩, hsilent⟩
    | none =>
      obtain ⟨v, hout⟩ := signal_of_no_silence hsilent
      obtain ⟨last, row, hrow⟩ | ⟨before, phase', after, row, o', e, rfl, ⟨s, hrow, hstep'⟩, he⟩ :=
        ih (hends.tail hstep hout)
      · exact .inl ⟨last, _, .pass hstep hout hrow⟩
      · exact .inr ⟨phase :: before, phase', after, _, o', e, rfl,
          ⟨s, .pass hstep hout hrow, hstep'⟩, he⟩

/-- A serial run of a fresh chain is a fold of first outputs. If every machine has one, the run has
the last of them, and each amplifier is left as its one step leaves it. Else the first step without
a signal is the failure of the run, in which no pass is counted and the later amplifiers are not
touched. -/
theorem serial_folds_outputs {program : List Value} {phases : List Int} {c : Chain}
    (hc : ofPhases program (phases.map .integer) = .ok c) (signal : Int) :
    ∃ m, Machine.load program = .ok m ∧
      (∀ last row, m.Hands signal phases last row → ∃ enough, ∀ fuel ≥ enough, ∃ journal,
        c.runSerial fuel (.integer signal) = some (.ok last, ⟨row, 1, journal⟩)) ∧
      (∀ before phase after row o e, phases = before ++ phase :: after →
        Breaks m signal before phase row o e → ∃ enough, ∀ fuel ≥ enough, ∃ journal,
          c.runSerial fuel (.integer signal) = some (.error e,
            ⟨row ++ ⟨o.machine, o.host⟩ :: c.amplifiers.drop (before.length + 1), 0, journal⟩)) ∧
      (m.StepsEnd signal phases → (∃ last row, m.Hands signal phases last row) ∨
        ∃ before phase after row o e, phases = before ++ phase :: after ∧
          Breaks m signal before phase row o e) := by
  obtain ⟨m, hm, hne, rfl⟩ := ofPhases_row hc
  refine ⟨m, hm, fun last row hrow => runSerial_of_hands hrow hne,
    fun before phase after row o e hsplit hbreak => ?_, hands_or_breaks⟩
  subst hsplit
  obtain ⟨⟨s, hrow, hstep⟩, he⟩ := hbreak
  obtain ⟨enough, hrelay⟩ := relay_of_hands hrow ((phase :: after).map (fresh m)) (by simp)
  obtain ⟨enough', hbroken⟩ := step_of_handed hstep
  refine ⟨max enough enough', fun fuel hf => ?_⟩
  obtain ⟨journal, hr⟩ := hrelay fuel (by omega) #[]
  obtain ⟨journal', hs⟩ := hbroken fuel (by omega) journal
  refine ⟨journal', ?_⟩
  rw [runSerial, List.map_append, hr, List.map_cons, relay_of_silence hs he]
  simp [List.drop_append]

/-- A program that adds its phase setting to a signal, and halts without an output if the phase
setting is zero. -/
def skipZero : List Value := [3, 15, 3, 16, 1006, 15, 13, 1, 15, 16, 16, 4, 16, 99].map .integer

/-- The third of four amplifiers halts without a signal. -/
theorem serial_folds_outputs_skipZero :
    ∃ c, ofPhases skipZero ([2, 3, 0, 4].map .integer) = .ok c ∧
      ∃ enough, ∀ fuel ≥ enough, ∃ c',
        c.runSerial fuel (.integer 1) = some (.error (.inputExhausted .silentAmplifier), c') ∧
        c'.rounds = 0 ∧ c'.amplifiers.drop 3 = c.amplifiers.drop 3 := by
  obtain ⟨c, hc⟩ : ∃ c, ofPhases skipZero ([2, 3, 0, 4].map .integer) = .ok c := ⟨_, rfl⟩
  obtain ⟨m, hm, _, hbroken, _⟩ := serial_folds_outputs hc 1
  have hfirst : (m.step Queue.host 20 ⟨[.integer 2, .integer 1]⟩).map (·.result) =
      some (.ok (some 3)) := by
    cases hm
    decide +kernel
  have hsecond : (m.step Queue.host 20 ⟨[.integer 3, .integer 3]⟩).map (·.result) =
      some (.ok (some 6)) := by
    cases hm
    decide +kernel
  have hthird : (m.step Queue.host 20 ⟨[.integer 0, .integer 6]⟩).map (·.result) =
      some (.ok none) := by
    cases hm
    decide +kernel
  obtain ⟨o₁, h₁, hout₁⟩ := Option.map_eq_some_iff.mp hfirst
  obtain ⟨o₂, h₂, hout₂⟩ := Option.map_eq_some_iff.mp hsecond
  obtain ⟨o₃, h₃, hout₃⟩ := Option.map_eq_some_iff.mp hthird
  have hrow := Machine.Hands.pass ⟨20, h₁⟩ hout₁ (.pass ⟨20, h₂⟩ hout₂ (.done 6))
  obtain ⟨enough, hrun⟩ := hbroken [2, 3] 0 [4] _ o₃ (.inputExhausted .silentAmplifier) rfl
    ⟨⟨6, hrow, 20, h₃⟩, by rw [hout₃]; rfl⟩
  refine ⟨c, hc, enough, fun fuel hf => ?_⟩
  obtain ⟨journal, h⟩ := hrun fuel hf
  exact ⟨_, h, rfl, rfl⟩

end Chain

end Intcode
