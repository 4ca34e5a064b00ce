import Intcode.Proofs.Record
import Intcode.Proofs.Turns

namespace Intcode

namespace Ledger

/-- Something that happens on a chain. A pass is completed when every amplifier has had its turn. -/
inductive Entry where
  | arrival (queue : Nat) (value : Value)
  | taking (queue : Nat) (value : Value)
  | emission (index : Nat) (v : Int)
  | pass

namespace Entry

def arrivalAt? (j : Nat) : Entry → Option Value
  | .arrival i value => if i = j then some value else none
  | _ => none

def takingAt? (j : Nat) : Entry → Option Value
  | .taking i value => if i = j then some value else none
  | _ => none

def emissionOf? (j : Nat) : Entry → Option Int
  | .emission i v => if i = j then some v else none
  | _ => none

def isPass : Entry → Bool
  | .pass => true
  | _ => false

end Entry

end Ledger

abbrev Ledger := List Ledger.Entry

namespace Ledger

def arrivals (j : Nat) (l : Ledger) : List Value := l.filterMap (Entry.arrivalAt? j)

def takings (j : Nat) (l : Ledger) : List Value := l.filterMap (Entry.takingAt? j)

def emissions (j : Nat) (l : Ledger) : List Int := l.filterMap (Entry.emissionOf? j)

def passes (l : Ledger) : Nat := l.countP Entry.isPass

@[simp] theorem arrivals_append (j : Nat) (l l' : Ledger) :
    Ledger.arrivals j (l ++ l') = l.arrivals j ++ l'.arrivals j := List.filterMap_append

@[simp] theorem takings_append (j : Nat) (l l' : Ledger) :
    Ledger.takings j (l ++ l') = l.takings j ++ l'.takings j := List.filterMap_append

@[simp] theorem emissions_append (j : Nat) (l l' : Ledger) :
    Ledger.emissions j (l ++ l') = l.emissions j ++ l'.emissions j := List.filterMap_append

@[simp] theorem passes_append (l l' : Ledger) :
    Ledger.passes (l ++ l') = l.passes + l'.passes := List.countP_append

def ofStep (index : Nat) (taken : List Value) (emitted : List Int) : Ledger :=
  taken.map (.taking index) ++ emitted.map (.emission index)

def ofArrival (queue : Nat) (values : List Value) : Ledger := values.map (.arrival queue)

theorem arrivals_ofArrival (i j : Nat) (values : List Value) :
    (ofArrival i values).arrivals j = if i = j then values else [] := by
  by_cases h : i = j
  · simp [ofArrival, arrivals, List.filterMap_map, Function.comp_def, Entry.arrivalAt?, h]
  · simp [ofArrival, arrivals, List.filterMap_map, Function.comp_def, Entry.arrivalAt?, h]

@[simp] theorem takings_ofArrival (i j : Nat) (values : List Value) :
    (ofArrival i values).takings j = [] := by
  simp [ofArrival, takings, Entry.takingAt?, List.filterMap_eq_nil_iff]

@[simp] theorem emissions_ofArrival (i j : Nat) (values : List Value) :
    (ofArrival i values).emissions j = [] := by
  simp [ofArrival, emissions, Entry.emissionOf?, List.filterMap_eq_nil_iff]

@[simp] theorem passes_ofArrival (i : Nat) (values : List Value) :
    (ofArrival i values).passes = 0 := by
  simp [ofArrival, passes, List.countP_eq_zero, Entry.isPass]

@[simp] theorem arrivals_ofStep (i j : Nat) (taken : List Value) (emitted : List Int) :
    (ofStep i taken emitted).arrivals j = [] := by
  simp [ofStep, arrivals, Entry.arrivalAt?, List.filterMap_eq_nil_iff]

theorem takings_ofStep (i j : Nat) (taken : List Value) (emitted : List Int) :
    (ofStep i taken emitted).takings j = if i = j then taken else [] := by
  have hemitted : Ledger.takings j (emitted.map (.emission i)) = [] := by
    simp [takings, Entry.takingAt?, List.filterMap_eq_nil_iff]
  rw [ofStep, takings_append, hemitted, List.append_nil]
  by_cases h : i = j
  · simp [takings, List.filterMap_map, Function.comp_def, Entry.takingAt?, h]
  · simp [takings, List.filterMap_map, Function.comp_def, Entry.takingAt?, h]

theorem emissions_ofStep (i j : Nat) (taken : List Value) (emitted : List Int) :
    (ofStep i taken emitted).emissions j = if i = j then emitted else [] := by
  have htaken : Ledger.emissions j (taken.map (.taking i)) = [] := by
    simp [emissions, Entry.emissionOf?, List.filterMap_eq_nil_iff]
  rw [ofStep, emissions_append, htaken, List.nil_append]
  by_cases h : i = j
  · simp [emissions, List.filterMap_map, Function.comp_def, Entry.emissionOf?, h]
  · simp [emissions, List.filterMap_map, Function.comp_def, Entry.emissionOf?, h]

@[simp] theorem passes_ofStep (i : Nat) (taken : List Value) (emitted : List Int) :
    (ofStep i taken emitted).passes = 0 := by
  simp [ofStep, passes, List.countP_eq_zero, Entry.isPass]

end Ledger

def Amplifier.taken (fuel : Nat) (a : Amplifier) (journal : Journal) : List Value :=
  match a.machine.step Queue.host.journaled.recorded fuel ((a.inbox, journal), []) with
  | none => []
  | some o => o.host.2

theorem Amplifier.step_accounts {fuel : Nat} {a a' : Amplifier} {journal journal' : Journal}
    {result : Except Error (Option Int)} (h : a.step fuel journal = some (result, a', journal')) :
    a.inbox.pending = a.taken fuel journal ++ a'.inbox.pending ∧
      a'.machine.emitted = a.machine.emitted + (Machine.emissionOf result).length := by
  obtain ⟨o, ho, he⟩ := Option.map_eq_some_iff.mp h
  cases he
  obtain ⟨record, hrecord⟩ := Machine.step_recorded ho []
  have htaken : a.taken fuel journal = record := by
    unfold taken
    rw [hrecord]
  have hkeeps := Queue.host_serves.journaled.recorded_keeps a.inbox.pending
  refine ⟨?_, Machine.step_emitted ho⟩
  rw [htaken]
  exact (Machine.step_keeps hkeeps hrecord rfl).symm

namespace Chain

/-- The ledger takes each queue, each counter of outputs and the counter of rounds from one chain to
the other. -/
structure Balance (c : Chain) (l : Ledger) (c' : Chain) : Prop where
  size : c'.size = c.size
  rounds : c'.rounds = c.rounds + l.passes
  amplifier : ∀ j a', c'.amplifiers[j]? = some a' → ∃ a, c.amplifiers[j]? = some a ∧
    a.inbox.pending ++ l.arrivals j = l.takings j ++ a'.inbox.pending ∧
    a'.machine.emitted = a.machine.emitted + (l.emissions j).length

theorem Balance.of_eq {c c' : Chain} (h : c'.amplifiers = c.amplifiers)
    (hr : c'.rounds = c.rounds) : Balance c [] c' := by
  refine ⟨by simp [Chain.size, h], hr, fun j a ha => ⟨a, h ▸ ha, ?_, rfl⟩⟩
  exact List.append_nil _

theorem Balance.trans {c c' c'' : Chain} {l l' : Ledger} (h : Balance c l c')
    (h' : Balance c' l' c'') : Balance c (l ++ l') c'' := by
  refine ⟨h'.size.trans h.size, ?_, fun j a'' ha'' => ?_⟩
  · rw [Ledger.passes_append, h'.rounds, h.rounds, Nat.add_assoc]
  · obtain ⟨a', ha', hq', he'⟩ := h'.amplifier j a'' ha''
    obtain ⟨a, ha, hq, he⟩ := h.amplifier j a' ha'
    refine ⟨a, ha, ?_, ?_⟩
    · rw [Ledger.arrivals_append, Ledger.takings_append, ← List.append_assoc, hq,
        List.append_assoc, hq', List.append_assoc]
    · rw [Ledger.emissions_append, List.length_append, he', he, Nat.add_assoc]

theorem Balance.inject (c : Chain) (index : Nat) (values : List Value) :
    Balance c (.ofArrival index values) (c.inject index values) := by
  refine ⟨by simp [Chain.size, Chain.inject], by simp [Chain.inject], fun j a' ha' => ?_⟩
  simp only [Chain.inject, List.getElem?_modify] at ha'
  obtain ⟨a, ha, rfl⟩ := Option.map_eq_some_iff.mp ha'
  obtain ⟨hm, hq⟩ := Amplifier.inject_if (index = j) a values
  refine ⟨a, ha, ?_, ?_⟩
  · rw [hq, Ledger.takings_ofArrival, Ledger.arrivals_ofArrival, List.nil_append]
  · rw [hm, Ledger.emissions_ofArrival]
    rfl

theorem Balance.step {c c' : Chain} {fuel index : Nat} {a a' : Amplifier}
    {journal journal' : Journal}
    {result : Except Error (Option Int)} (ha : c.amplifiers[index]? = some a)
    (hs : a.step fuel journal = some (result, a', journal'))
    (hc : c'.amplifiers = c.amplifiers.set index a') (hr : c'.rounds = c.rounds) :
    Balance c (.ofStep index (a.taken fuel journal) (Machine.emissionOf result)) c' := by
  obtain ⟨hq, hm⟩ := Amplifier.step_accounts hs
  refine ⟨by simp [Chain.size, hc], by simp [hr], fun j b hb => ?_⟩
  simp only [Ledger.arrivals_ofStep, Ledger.takings_ofStep, Ledger.emissions_ofStep,
    List.append_nil]
  rw [hc, List.getElem?_set] at hb
  by_cases hij : index = j
  · subst hij
    obtain ⟨_, rfl⟩ : index < c.amplifiers.length ∧ a' = b := by simpa using hb
    exact ⟨a, ha, by rwa [if_pos rfl], by rwa [if_pos rfl]⟩
  · rw [if_neg hij] at hb
    exact ⟨b, hb, by simp [hij], by simp [hij]⟩

/-- What happens in the turn of one amplifier. -/
def turnLedger (fuel index : Nat) (c : Chain) : Ledger :=
  match c.amplifiers[index]? with
  | none => []
  | some a =>
    if a.machine.isHalted then []
    else
      match a.step fuel c.journal with
      | none => []
      | some (result, _, _) =>
        .ofStep index (a.taken fuel c.journal) (Machine.emissionOf result) ++
          .ofArrival ((index + 1) % c.size) ((Machine.emissionOf result).map .integer)

/-- What happens in the turns of a schedule, up to the first that fails. -/
def turnsLedger (fuel : Nat) : (schedule : List Nat) → Chain → Ledger
  | [], _ => []
  | index :: rest, c =>
    c.turnLedger fuel index ++
      match c.turn fuel index with
      | some (.ok _, c) => turnsLedger fuel rest c
      | _ => []

/-- What happens in rounds of turns, up to a failure or until all amplifiers have halted. -/
def roundsLedger : (fuel : Nat) → (last : Option Int) → Chain → Ledger
  | 0, _, _ => []
  | fuel + 1, last, c =>
    if c.allHalted then []
    else
      c.turnsLedger (fuel + 1) (List.range c.size) ++
        match c.turns (fuel + 1) (List.range c.size) last with
        | some (.ok last, c) => .pass :: roundsLedger fuel last { c with rounds := c.rounds + 1 }
        | _ => []

/-- What happens when a signal is handed along a row of amplifiers, the first of which has an
index. -/
def relayLedger (fuel : Nat) : (index : Nat) → (signal : Value) → List Amplifier → Journal → Ledger
  | _, _, [], _ => []
  | index, signal, a :: rest, journal =>
    .ofArrival index [signal] ++
      match (a.inject [signal]).step fuel journal with
      | none => []
      | some (result, _, journal') =>
        .ofStep index ((a.inject [signal]).taken fuel journal) (Machine.emissionOf result) ++
          match result with
          | .ok (some v) => relayLedger fuel (index + 1) (.integer v) rest journal'
          | _ => []

theorem Balance.of_turn_step {c c' : Chain} {fuel index : Nat} {a a' : Amplifier}
    {journal' : Journal} {result : Except Error (Option Int)}
    (ha : c.amplifiers[index]? = some a) (hs : a.step fuel c.journal = some (result, a', journal'))
    (hc : c'.amplifiers = (c.amplifiers.set index a').modify ((index + 1) % c.size)
      (·.inject ((Machine.emissionOf result).map .integer))) (hr : c'.rounds = c.rounds) :
    Balance c (.ofStep index (a.taken fuel c.journal) (Machine.emissionOf result) ++
      .ofArrival ((index + 1) % c.size) ((Machine.emissionOf result).map .integer)) c' := by
  let stepped : Chain := { c with amplifiers := c.amplifiers.set index a' }
  have hstep :
      Balance c (.ofStep index (a.taken fuel c.journal) (Machine.emissionOf result)) stepped :=
    Balance.step ha hs rfl rfl
  have hinject := Balance.inject stepped ((index + 1) % c.size)
    ((Machine.emissionOf result).map .integer)
  have hsame := Balance.of_eq (c := stepped.inject ((index + 1) % c.size)
    ((Machine.emissionOf result).map .integer)) hc hr
  simpa using (hstep.trans hinject).trans hsame

theorem balance_of_turn {fuel index : Nat} {c c' : Chain} {result : Except Error (Option Int)}
    (h : c.turn fuel index = some (result, c')) : Balance c (c.turnLedger fuel index) c' := by
  obtain ⟨rfl, _, hh⟩ | ⟨a, a', journal', ha, hh, hs, hc, hr⟩ := turn_cases h
  · have hnothing : c'.turnLedger fuel index = [] := by
      unfold turnLedger
      cases ha : c'.amplifiers[index]? with
      | none => rfl
      | some a => simp [hh a ha]
    rw [hnothing]
    exact Balance.of_eq rfl rfl
  · have hstep : c.turnLedger fuel index =
        .ofStep index (a.taken fuel c.journal) (Machine.emissionOf result) ++
          .ofArrival ((index + 1) % c.size) ((Machine.emissionOf result).map .integer) := by
      simp [turnLedger, ha, hh, hs]
    rw [hstep]
    exact Balance.of_turn_step ha hs hc hr

theorem balance_of_turns {fuel : Nat} {schedule : List Nat} {last : Option Int} {c c' : Chain}
    {result : Except Error (Option Int)}
    (h : c.turns fuel schedule last = some (result, c')) :
    Balance c (c.turnsLedger fuel schedule) c' := by
  induction schedule generalizing last c with
  | nil =>
    cases h
    exact Balance.of_eq rfl rfl
  | cons index rest ih =>
    rw [turns] at h
    rw [turnsLedger]
    cases ht : c.turn fuel index with
    | none => simp [ht] at h
    | some after =>
      obtain ⟨given, c₁⟩ := after
      have hb := balance_of_turn ht
      cases given with
      | error e =>
        simp only [ht] at h ⊢
        cases h
        simpa using hb
      | ok out =>
        simp only [ht] at h ⊢
        exact hb.trans (ih h)

theorem balance_of_round (c : Chain) : Balance c [.pass] { c with rounds := c.rounds + 1 } :=
  ⟨rfl, rfl, fun _ a ha => ⟨a, ha, List.append_nil _, rfl⟩⟩

theorem balance_of_rounds {fuel : Nat} {last : Option Int} {c c' : Chain}
    {result : Except Error Int} (h : c.roundsFrom fuel last = some (result, c')) :
    Balance c (c.roundsLedger fuel last) c' := by
  induction fuel generalizing last c with
  | zero => simp [roundsFrom] at h
  | succ fuel ih =>
    unfold roundsFrom at h
    rw [roundsLedger]
    by_cases hh : c.allHalted = true
    · simp only [hh, if_true] at h ⊢
      cases last with
      | none =>
        cases h
        exact Balance.of_eq rfl rfl
      | some v =>
        cases h
        exact Balance.of_eq rfl rfl
    · simp only [hh] at h ⊢
      cases ht : c.turns (fuel + 1) (List.range c.size) last with
      | none => simp [ht] at h
      | some after =>
        obtain ⟨given, c₁⟩ := after
        have hb := balance_of_turns ht
        cases given with
        | error e =>
          simp only [ht] at h
          cases h
          simpa using hb
        | ok last' =>
          simp only [ht] at h
          exact hb.trans ((balance_of_round c₁).trans (ih h))

theorem balance_of_relay {fuel : Nat} {signal : Value} {amplifiers amplifiers' : List Amplifier}
    {journal journal' : Journal} {result : Except Error Int}
    (h : relay fuel signal amplifiers journal = some (result, amplifiers', journal'))
    (front : List Amplifier) (rounds : Nat) (before after : Journal) :
    Balance ⟨front ++ amplifiers, rounds, before⟩
      (relayLedger fuel front.length signal amplifiers journal)
      ⟨front ++ amplifiers', rounds, after⟩ := by
  -- Amplifiers already passed move into the front, so that indices stay those of the whole chain.
  induction amplifiers generalizing signal journal amplifiers' front with
  | nil =>
    cases h
    exact Balance.of_eq rfl rfl
  | cons a rest ih =>
    rw [relay] at h
    rw [relayLedger]
    have hinject := Balance.inject ⟨front ++ a :: rest, rounds, before⟩ front.length [signal]
    have hmodified : (front ++ a :: rest).modify front.length (·.inject [signal]) =
        front ++ a.inject [signal] :: rest :=
      List.modifyTailIdx_add (List.modifyHead (Amplifier.inject · [signal])) 0 front (a :: rest)
    simp only [Chain.inject, hmodified] at hinject
    refine hinject.trans ?_
    cases hs : (a.inject [signal]).step fuel journal with
    | none => simp [hs] at h
    | some stepped =>
      obtain ⟨given, a', journal₁⟩ := stepped
      have hstep (later : Journal) : Balance ⟨front ++ a.inject [signal] :: rest, rounds, before⟩
          (.ofStep front.length ((a.inject [signal]).taken fuel journal) (Machine.emissionOf given))
          ⟨front ++ a' :: rest, rounds, later⟩ :=
        Balance.step (by simp) hs (by simp) rfl
      rcases given with e | _ | v
      · simp only [hs] at h
        cases h
        simpa using hstep after
      · simp only [hs] at h
        cases h
        simpa using hstep after
      · simp only [hs] at h
        refine (hstep before).trans ?_
        cases rest with
        | nil =>
          cases h
          exact Balance.of_eq rfl rfl
        | cons b rest =>
          obtain ⟨⟨result', rest', journal₂⟩, hrest, he⟩ := Option.map_eq_some_iff.mp h
          cases he
          have hnext := ih hrest (front ++ [a'])
          simpa using hnext

end Chain

end Intcode
