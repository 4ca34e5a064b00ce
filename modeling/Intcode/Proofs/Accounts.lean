import Intcode.Proofs.Feedback
import Intcode.Proofs.Ledger

namespace Intcode

namespace Chain

/-- What a host does with a chain; a run may try so many instructions and rounds. -/
inductive Call where
  | inject (index : Nat) (values : List Value)
  | serial (fuel : Nat) (signal : Value)
  | feedback (fuel : Nat) (signal : Value)

def call (c : Chain) : Call → Option Chain
  | .inject index values => some (c.inject index values)
  | .serial fuel signal => (c.runSerial fuel signal).map (·.2)
  | .feedback fuel signal => (c.runFeedback fuel signal).map (·.2)

def callLedger (c : Chain) : Call → Ledger
  | .inject index values => .ofArrival index values
  | .serial fuel signal =>
    relayLedger fuel 0 signal c.amplifiers c.journal ++
      match c.runSerial fuel signal with
      | some (.ok _, _) => [.pass]
      | _ => []
  | .feedback fuel signal =>
    .ofArrival 0 [signal] ++ (c.inject 0 [signal]).roundsLedger fuel none

def callAll : List Call → Chain → Option Chain
  | [], c => some c
  | call :: rest, c => (c.call call).bind (callAll rest)

def callsLedger : List Call → Chain → Ledger
  | [], _ => []
  | call :: rest, c =>
    c.callLedger call ++
      match c.call call with
      | none => []
      | some c => callsLedger rest c

theorem balance_of_serial {fuel : Nat} {signal : Value} {c c' : Chain} {result : Except Error Int}
    (h : c.runSerial fuel signal = some (result, c')) :
    Balance c (c.callLedger (.serial fuel signal)) c' := by
  obtain ⟨⟨result', amplifiers', journal'⟩, hrelay, he⟩ := Option.map_eq_some_iff.mp h
  have hb := balance_of_relay hrelay [] c.rounds c.journal journal'
  simp only [callLedger, h]
  cases he
  cases result with
  | error e => simpa using hb
  | ok v => exact hb.trans (balance_of_round _)

theorem balance_of_call {call : Call} {c c' : Chain} (h : c.call call = some c') :
    Balance c (c.callLedger call) c' := by
  cases call with
  | inject index values =>
    cases h
    exact Balance.inject c index values
  | serial fuel signal =>
    obtain ⟨⟨result, c₁⟩, hrun, rfl⟩ := Option.map_eq_some_iff.mp h
    exact balance_of_serial hrun
  | feedback fuel signal =>
    obtain ⟨⟨result, c₁⟩, hrun, rfl⟩ := Option.map_eq_some_iff.mp h
    exact (Balance.inject c 0 [signal]).trans (balance_of_rounds hrun)

theorem balance_of_calls {calls : List Call} {c c' : Chain} (h : c.callAll calls = some c') :
    Balance c (c.callsLedger calls) c' := by
  induction calls generalizing c with
  | nil =>
    cases h
    exact Balance.of_eq rfl rfl
  | cons call rest ih =>
    obtain ⟨c₁, hcall, hrest⟩ := Option.bind_eq_some_iff.mp h
    have hb := (balance_of_call hcall).trans (ih hrest)
    simpa only [callsLedger, hcall] using hb

/-- Every value that an amplifier emits arrives once at the one after it, and nothing else
arrives. -/
def Ring (size : Nat) (l : Ledger) : Prop :=
  ∀ i < size, l.arrivals ((i + 1) % size) = (l.emissions i).map .integer

theorem Ring.nil (size : Nat) : Ring size [] := fun _ _ => rfl

theorem Ring.append {size : Nat} {l l' : Ledger} (h : Ring size l) (h' : Ring size l') :
    Ring size (l ++ l') := by
  intro i hi
  rw [Ledger.arrivals_append, Ledger.emissions_append, List.map_append, h i hi, h' i hi]

theorem next_inj {size i j : Nat} (hi : i < size) (hj : j < size)
    (h : (i + 1) % size = (j + 1) % size) : i = j := by
  have hmod (k : Nat) (hk : k < size) : (k + 1) % size = if k + 1 = size then 0 else k + 1 := by
    split
    next he => rw [he, Nat.mod_self]
    next he => exact Nat.mod_eq_of_lt (by omega)
  rw [hmod i hi, hmod j hj] at h
  split at h <;> split at h <;> omega

theorem ring_of_turn (fuel index : Nat) (c : Chain) : Ring c.size (c.turnLedger fuel index) := by
  intro i hi
  unfold turnLedger
  cases ha : c.amplifiers[index]? with
  | none => rfl
  | some a =>
    simp only
    split
    · rfl
    · cases a.step fuel c.journal with
      | none => rfl
      | some after =>
        have hindex : index < c.size := getElem?_lt ha
        simp only [Ledger.arrivals_append, Ledger.emissions_append, Ledger.arrivals_ofStep,
          Ledger.emissions_ofStep, Ledger.arrivals_ofArrival, Ledger.emissions_ofArrival,
          List.nil_append, List.append_nil]
        by_cases h : index = i
        · simp [h]
        · have hne : (index + 1) % c.size ≠ (i + 1) % c.size := fun he => h (next_inj hindex hi he)
          simp [h, hne]

theorem ring_of_turns (fuel : Nat) (schedule : List Nat) (c : Chain) :
    Ring c.size (c.turnsLedger fuel schedule) := by
  induction schedule generalizing c with
  | nil => exact Ring.nil c.size
  | cons index rest ih =>
    rw [turnsLedger]
    refine (ring_of_turn fuel index c).append ?_
    split
    next out c₁ ht =>
      have hsize := (balance_of_turn ht).size
      exact hsize ▸ ih c₁
    next => exact Ring.nil c.size

theorem ring_of_rounds (fuel : Nat) (last : Option Int) (c : Chain) :
    Ring c.size (c.roundsLedger fuel last) := by
  induction fuel generalizing last c with
  | zero => exact Ring.nil c.size
  | succ fuel ih =>
    rw [roundsLedger]
    split
    · exact Ring.nil c.size
    · refine (ring_of_turns (fuel + 1) _ c).append ?_
      split
      next last' c₁ ht =>
        have hsize := (balance_of_turns ht).size
        have hrest := ih last' { c₁ with rounds := c₁.rounds + 1 }
        have hpass : Ring c.size [.pass] := fun _ _ => rfl
        exact hpass.append (hsize ▸ hrest)
      next => exact Ring.nil c.size

theorem relay_arrivals (fuel index : Nat) (signal : Value) (amplifiers : List Amplifier)
    (journal : Journal) (i : Nat) (hi : i + 1 < index + amplifiers.length) :
    (relayLedger fuel index signal amplifiers journal).arrivals (i + 1) =
      (if index = i + 1 then [signal] else []) ++
        ((relayLedger fuel index signal amplifiers journal).emissions i).map .integer := by
  induction amplifiers generalizing index signal journal with
  | nil =>
    have hne : index ≠ i + 1 := by
      simp only [List.length_nil] at hi
      omega
    simp [relayLedger, hne, Ledger.arrivals, Ledger.emissions]
  | cons a rest ih =>
    rw [relayLedger, Ledger.arrivals_append, Ledger.emissions_append, Ledger.arrivals_ofArrival,
      Ledger.emissions_ofArrival, List.nil_append]
    congr 1
    cases (a.inject [signal]).step fuel journal with
    | none => rfl
    | some stepped =>
      obtain ⟨result, a', journal'⟩ := stepped
      simp only [Ledger.arrivals_append, Ledger.emissions_append, Ledger.arrivals_ofStep,
        Ledger.emissions_ofStep, List.nil_append]
      rcases result with e | _ | v
      · simp [Machine.emissionOf, Ledger.arrivals, Ledger.emissions]
      · simp [Machine.emissionOf, Ledger.arrivals, Ledger.emissions]
      · simp only [List.length_cons] at hi
        rw [ih (index + 1) (.integer v) journal' (by omega)]
        by_cases h : index = i
        · simp [Machine.emissionOf, h]
        · simp [h]

theorem relay_arrivals_first (fuel index : Nat) (signal : Value) (amplifiers : List Amplifier)
    (journal : Journal) (h : amplifiers ≠ []) :
    (relayLedger fuel index signal amplifiers journal).arrivals 0 =
      if index = 0 then [signal] else [] := by
  induction amplifiers generalizing index signal journal with
  | nil => exact absurd rfl h
  | cons a rest ih =>
    rw [relayLedger, Ledger.arrivals_append, Ledger.arrivals_ofArrival]
    refine List.append_right_eq_self.mpr ?_
    cases (a.inject [signal]).step fuel journal with
    | none => rfl
    | some stepped =>
      obtain ⟨result, a', journal'⟩ := stepped
      rw [Ledger.arrivals_append, Ledger.arrivals_ofStep, List.nil_append]
      rcases result with e | _ | v
      · rfl
      · rfl
      · cases rest with
        | nil => rfl
        | cons b rest => exact ih (index + 1) (.integer v) journal' (by simp)

/-- Where the arrivals of a call come from: from the host, or each once from the amplifier
before. -/
def Linked (size : Nat) (l : Ledger) : Call → Prop
  | .inject index values => ∀ j, l.arrivals j = if index = j then values else []
  | .serial _ signal => l.arrivals 0 = [signal] ∧
    ∀ i, i + 1 < size → l.arrivals (i + 1) = (l.emissions i).map .integer
  | .feedback _ signal => ∀ i < size, l.arrivals ((i + 1) % size) =
    (if (i + 1) % size = 0 then [signal] else []) ++ (l.emissions i).map .integer

theorem linked_of_call {c : Chain} (hc : 0 < c.size) (call : Call) :
    Linked c.size (c.callLedger call) call := by
  cases call with
  | inject index values => exact fun j => Ledger.arrivals_ofArrival index j values
  | serial fuel signal =>
    have hpass (j : Nat) : Ledger.arrivals j (match c.runSerial fuel signal with
        | some (.ok _, _) => [.pass]
        | _ => []) = [] ∧ Ledger.emissions j (match c.runSerial fuel signal with
        | some (.ok _, _) => [.pass]
        | _ => []) = [] := by
      split <;> exact ⟨rfl, rfl⟩
    refine ⟨?_, fun i hi => ?_⟩
    · rw [callLedger, Ledger.arrivals_append, (hpass 0).1, List.append_nil]
      exact relay_arrivals_first fuel 0 signal c.amplifiers c.journal (List.length_pos_iff.mp hc)
    · have hlength : i + 1 < 0 + c.amplifiers.length := (Nat.zero_add _).symm ▸ hi
      have harrivals := relay_arrivals fuel 0 signal c.amplifiers c.journal i hlength
      rw [callLedger, Ledger.arrivals_append, Ledger.emissions_append, (hpass (i + 1)).1,
        (hpass i).2, List.append_nil, List.append_nil, harrivals]
      rfl
  | feedback fuel signal =>
    intro i hi
    have hsize : (c.inject 0 [signal]).size = c.size := (Balance.inject c 0 [signal]).size
    have hring := ring_of_rounds fuel none (c.inject 0 [signal]) i (hsize ▸ hi)
    rw [hsize] at hring
    rw [callLedger, Ledger.arrivals_append, Ledger.emissions_append, Ledger.arrivals_ofArrival,
      Ledger.emissions_ofArrival, List.nil_append, hring]
    by_cases h : (i + 1) % c.size = 0
    · simp [h]
    · simp [h, Ne.symm h]

theorem ofPhases_fresh {program phases : List Value} {c : Chain}
    (hc : ofPhases program phases = .ok c) :
    c.size = phases.length ∧ 0 < c.size ∧ c.rounds = 0 ∧
      ∀ (j : Nat) (a : Amplifier), c.amplifiers[j]? = some a →
        a.machine.emitted = 0 ∧ ∃ phase, phases[j]? = some phase ∧ a.inbox.pending = [phase] := by
  obtain ⟨m, hm, hpos, rfl⟩ := ofPhases_ok hc
  have hemitted : m.emitted = 0 := by
    obtain ⟨cells, _, rfl⟩ := Machine.load_ok hm
    rfl
  refine ⟨by simp [Chain.size], by simpa [Chain.size] using hpos, rfl, fun j a ha => ?_⟩
  rw [List.getElem?_map] at ha
  obtain ⟨phase, hphase, rfl⟩ := Option.map_eq_some_iff.mp ha
  exact ⟨hemitted, phase, hphase, rfl⟩

theorem rounds_of_failed_serial {fuel : Nat} {signal : Value} {c c' : Chain} {e : Error}
    (h : c.runSerial fuel signal = some (.error e, c')) : c'.rounds = c.rounds := by
  obtain ⟨⟨result, amplifiers', journal'⟩, _, he⟩ := Option.map_eq_some_iff.mp h
  cases he
  rfl

theorem turnsLedger_passes (fuel : Nat) (schedule : List Nat) (c : Chain) :
    (c.turnsLedger fuel schedule).passes = 0 := by
  induction schedule generalizing c with
  | nil => rfl
  | cons index rest ih =>
    have hturn : (c.turnLedger fuel index).passes = 0 := by
      unfold turnLedger
      split
      · rfl
      · split
        · rfl
        · split
          · rfl
          · simp
    rw [turnsLedger, Ledger.passes_append, hturn, Nat.zero_add]
    split
    · exact ih _
    · rfl

/-- On every link all that has ever arrived is what the machine has taken, followed by what waits
for it, in order; and what arrives comes from the host or, each value once, from the amplifier
before. -/
theorem signals_accounted {program phases : List Value} {calls : List Call} {c c' : Chain}
    (hc : ofPhases program phases = .ok c) (h : c.callAll calls = some c') :
    (∀ (j : Nat) (a : Amplifier), c'.amplifiers[j]? = some a → ∃ phase, phases[j]? = some phase ∧
      phase :: (c.callsLedger calls).arrivals j =
        (c.callsLedger calls).takings j ++ a.inbox.pending ∧
      a.machine.emitted = ((c.callsLedger calls).emissions j).length) ∧
    c'.size = phases.length ∧ c'.rounds = (c.callsLedger calls).passes ∧
    (∀ earlier call later c₁, calls = earlier ++ call :: later → c.callAll earlier = some c₁ →
      c₁.size = phases.length ∧ Linked phases.length (c₁.callLedger call) call) ∧
    (∀ (c₁ c₂ : Chain) fuel signal e, c₁.runSerial fuel signal = some (.error e, c₂) →
      c₂.rounds = c₁.rounds) ∧
    ∀ (c₁ c₂ : Chain) fuel last e, c₁.turns fuel (List.range c₁.size) last = some (.error e, c₂) →
      c₂.rounds = c₁.rounds := by
  obtain ⟨hsize, hpos, hrounds, hfresh⟩ := ofPhases_fresh hc
  have hb := balance_of_calls h
  refine ⟨fun j a ha => ?_, hb.size.trans hsize, ?_, ?_,
    fun _ _ _ _ _ => rounds_of_failed_serial, ?_⟩
  · obtain ⟨a₀, ha₀, hq, he⟩ := hb.amplifier j a ha
    obtain ⟨hemitted, phase, hphase, hpending⟩ := hfresh j a₀ ha₀
    refine ⟨phase, hphase, ?_, ?_⟩
    · rw [← hq, hpending]
      rfl
    · rw [he, hemitted, Nat.zero_add]
  · rw [hb.rounds, hrounds, Nat.zero_add]
  · intro earlier call later c₁ _ hearlier
    have hsize₁ : c₁.size = phases.length := (balance_of_calls hearlier).size.trans hsize
    have hpos₁ : 0 < c₁.size := by omega
    exact ⟨hsize₁, hsize₁ ▸ linked_of_call hpos₁ call⟩
  · intro c₁ c₂ fuel last e ht
    rw [(balance_of_turns ht).rounds, turnsLedger_passes]
    rfl

/-- A serial run, and a feedback run that ends at a truth value put between its signals. -/
theorem signals_accounted_addTwice :
    ∃ c c' a, ofPhases addTwice ([2, 3].map .integer) = .ok c ∧
      c.callAll [.serial 20 (.integer 1), .inject 1 [.boolean true], .feedback 20 (.integer 5)] =
        some c' ∧ c'.rounds = 1 ∧ c'.amplifiers[1]? = some a ∧
      ([3, 3].map .integer ++ [.boolean true, .integer 7] : List Value) =
        [.integer 3, .integer 3, .boolean true] ++ a.inbox.pending ∧ a.machine.emitted = 1 := by
  let calls : List Call :=
    [.serial 20 (.integer 1), .inject 1 [.boolean true], .feedback 20 (.integer 5)]
  obtain ⟨c, hc⟩ : ∃ c, ofPhases addTwice ([2, 3].map .integer) = .ok c := ⟨_, rfl⟩
  have hends : (c.callAll calls).isSome = true := by
    cases hc
    decide +kernel
  obtain ⟨c', h⟩ := Option.isSome_iff_exists.mp hends
  have hledger : (c.callsLedger calls).arrivals 1 = [.integer 3, .boolean true, .integer 7] ∧
      (c.callsLedger calls).takings 1 = [.integer 3, .integer 3, .boolean true] ∧
      (c.callsLedger calls).emissions 1 = [6] ∧ (c.callsLedger calls).passes = 1 := by
    cases hc
    decide +kernel
  obtain ⟨harrivals, htakings, hemissions, hpasses⟩ := hledger
  obtain ⟨hlinks, hsize, hrounds, _⟩ := signals_accounted hc h
  obtain ⟨a, ha⟩ := getElem?_of_lt (hsize.symm ▸ Nat.one_lt_two : 1 < c'.size)
  obtain ⟨phase, hphase, hq, he⟩ := hlinks 1 a ha
  cases hphase
  rw [harrivals, htakings] at hq
  rw [hemissions] at he
  exact ⟨c, c', a, hc, h, hrounds.trans hpasses, ha, hq, he⟩

end Chain

end Intcode
