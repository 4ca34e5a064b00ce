import Intcode.Amplifier.Chain
import Intcode.Proofs.Record

namespace Intcode

/-- Emitted values in order, each with the index of its amplifier. -/
abbrev Emissions := List (Nat × Int)

namespace Emissions

def of (index : Nat) (log : Emissions) : List Int :=
  (log.filter fun e => e.1 == index).map (·.2)

/-- The values that reach one amplifier of a ring: those of the amplifier before it. -/
def reaching (size index : Nat) (log : Emissions) : List Int :=
  log.of (if index = 0 then size - 1 else index - 1)

@[simp] theorem of_nil (index : Nat) : Emissions.of index [] = [] := rfl

@[simp] theorem of_append (index : Nat) (log more : Emissions) :
    Emissions.of index (log ++ more) = log.of index ++ more.of index := by
  simp [Emissions.of]

@[simp] theorem reaching_nil (size index : Nat) : Emissions.reaching size index [] = [] := rfl

@[simp] theorem reaching_append (size index : Nat) (log more : Emissions) :
    Emissions.reaching size index (log ++ more) =
      log.reaching size index ++ more.reaching size index := by
  simp [reaching]

/-- What one amplifier emits in a turn. -/
def single (index : Nat) (out : Option Int) : Emissions := out.toList.map (index, ·)

theorem of_single_self (index : Nat) (out : Option Int) :
    (single index out).of index = out.toList := by
  cases out <;> simp [single, Emissions.of]

theorem of_single_ne {index other : Nat} (h : index ≠ other) (out : Option Int) :
    (single index out).of other = [] := by
  cases out <;> simp [single, Emissions.of, h]

theorem reaching_single {size index other : Nat} (hi : index < size) (ho : other < size)
    (out : Option Int) :
    (single index out).reaching size other =
      if (index + 1) % size = other then out.toList else [] := by
  have hmod : (index + 1) % size = if index + 1 = size then 0 else index + 1 := by
    split
    next h => rw [h, Nat.mod_self]
    next h => exact Nat.mod_eq_of_lt (by omega)
  unfold reaching
  by_cases h : index = if other = 0 then size - 1 else other - 1
  · rw [← h, of_single_self, if_pos]
    rw [hmod]
    split at h <;> split <;> omega
  · rw [of_single_ne h, if_neg]
    rw [hmod]
    split at h <;> split <;> omega

end Emissions

theorem Amplifier.step_ok {fuel : Nat} {a a' : Amplifier} {journal journal' : Journal}
    {out : Option Int} (h : a.step fuel journal = some (.ok out, a', journal')) :
    ∃ taken : List Int, Machine.Path a.machine taken out.toList a'.machine ∧
      a.inbox.pending = taken.map .integer ++ a'.inbox.pending := by
  obtain ⟨o, ho, he⟩ := Option.map_eq_some_iff.mp h
  obtain ⟨hr, rfl, rfl⟩ : o.result = .ok out ∧ ⟨o.machine, o.host.1⟩ = a' ∧
    o.host.2 = journal' := by
    simpa using he
  have hs := Machine.steps_of_step Queue.host_serves.journaled ho
  exact (hr ▸ hs).path

theorem Amplifier.inject_if (p : Prop) [Decidable p] (a : Amplifier) (values : List Value) :
    (if p then a.inject values else a).machine = a.machine ∧
      (if p then a.inject values else a).inbox.pending =
        a.inbox.pending ++ if p then values else [] := by
  split
  next => exact ⟨rfl, rfl⟩
  next => exact ⟨rfl, (List.append_nil _).symm⟩

theorem Amplifier.inject_nil (a : Amplifier) : a.inject [] = a := by
  simp [Amplifier.inject, Queue.inject]

namespace Chain

theorem ofPhases_ok {program phases : List Value} {c : Chain}
    (hc : ofPhases program phases = .ok c) :
    ∃ m, Machine.load program = .ok m ∧ 0 < phases.length ∧
      c = { amplifiers := phases.map fun phase => ⟨m, ⟨[phase]⟩⟩ } := by
  unfold ofPhases at hc
  split at hc
  next => simp at hc
  next hne =>
    have hpos : 0 < phases.length := List.length_pos_iff.mpr fun hnil => hne (by simp [hnil])
    cases hm : Machine.load program with
    | error e => simp [hm, Except.map] at hc
    | ok m => exact ⟨m, rfl, hpos, by simpa [hm, Except.map, eq_comm] using hc⟩

theorem inject_none (amplifiers : List Amplifier) (index : Nat) :
    amplifiers.modify index (·.inject []) = amplifiers := by
  simp only [Amplifier.inject_nil]
  exact List.modify_id _ _

/-- A turn passes over an amplifier that has halted; else the amplifier steps, and what it emits is
put into the queue of the next one. -/
theorem turn_cases {fuel index : Nat} {c c' : Chain} {result : Except Error (Option Int)}
    (h : c.turn fuel index = some (result, c')) :
    (c' = c ∧ result = .ok none ∧
        ∀ a, c.amplifiers[index]? = some a → a.machine.isHalted = true) ∨
      ∃ (a a' : Amplifier) (journal' : Journal), c.amplifiers[index]? = some a ∧
        a.machine.isHalted = false ∧ a.step fuel c.journal = some (result, a', journal') ∧
        c'.amplifiers = (c.amplifiers.set index a').modify ((index + 1) % c.size)
          (·.inject ((Machine.emissionOf result).map .integer)) ∧ c'.rounds = c.rounds := by
  unfold turn at h
  cases ha : c.amplifiers[index]? with
  | none =>
    simp only [ha] at h
    cases h
    exact .inl ⟨rfl, rfl, nofun⟩
  | some a =>
    simp only [ha] at h
    split at h
    next hh =>
      cases h
      refine .inl ⟨rfl, rfl, fun b hb => ?_⟩
      cases hb
      exact hh
    next hh =>
      refine .inr ?_
      cases hs : a.step fuel c.journal with
      | none => simp [hs] at h
      | some after =>
        obtain ⟨given, a', journal'⟩ := after
        simp only [hs] at h
        have hquiet := (inject_none (c.amplifiers.set index a') ((index + 1) % c.size)).symm
        rcases given with e | _ | v
        · cases h
          exact ⟨a, a', journal', rfl, by simpa using hh, hs, hquiet, rfl⟩
        · cases h
          exact ⟨a, a', journal', rfl, by simpa using hh, hs, hquiet, rfl⟩
        · cases h
          refine ⟨a, a', journal', rfl, by simpa using hh, hs, ?_, rfl⟩
          simp [Chain.inject, Chain.size, Machine.emissionOf]

/-- A turn without a failure leaves the chain as it is, or takes one machine along a path on the
values in its queue and hands what it emits to the next amplifier. -/
theorem turn_ok {fuel index : Nat} {c c' : Chain} {out : Option Int}
    (h : c.turn fuel index = some (.ok out, c')) :
    (c'.amplifiers = c.amplifiers ∧ out = none) ∨
      ∃ (a a' : Amplifier) (taken : List Int), c.amplifiers[index]? = some a ∧
        Machine.Path a.machine taken out.toList a'.machine ∧
        a.inbox.pending = taken.map .integer ++ a'.inbox.pending ∧
        c'.amplifiers = (c.amplifiers.set index a').modify ((index + 1) % c.size)
          (·.inject (out.toList.map .integer)) := by
  obtain ⟨rfl, hout, _⟩ | ⟨a, a', _, ha, _, hs, hc, _⟩ := turn_cases h
  · cases hout
    exact .inl ⟨rfl, rfl⟩
  · obtain ⟨taken, hp, ht⟩ := Amplifier.step_ok hs
    exact .inr ⟨a, a', taken, ha, hp, ht, hc⟩

/-- With these emissions in between, each machine has gone along a path, and its queue has passed on
what it held and what reached it. -/
structure Flow (c : Chain) (log : Emissions) (c' : Chain) : Prop where
  size : c'.size = c.size
  amplifier : ∀ j a', c'.amplifiers[j]? = some a' → ∃ (a : Amplifier) (taken : List Int),
    c.amplifiers[j]? = some a ∧ Machine.Path a.machine taken (log.of j) a'.machine ∧
    a.inbox.pending ++ (log.reaching c.size j).map .integer =
      taken.map .integer ++ a'.inbox.pending

theorem Flow.of_eq {c c' : Chain} (h : c'.amplifiers = c.amplifiers) : Flow c [] c' := by
  refine ⟨by simp [Chain.size, h], fun j a ha => ⟨a, [], h ▸ ha, .refl _, by simp⟩⟩

theorem Flow.trans {c c' c'' : Chain} {log log' : Emissions} (h : Flow c log c')
    (h' : Flow c' log' c'') : Flow c (log ++ log') c'' := by
  refine ⟨h'.size.trans h.size, fun j a'' ha'' => ?_⟩
  obtain ⟨a', taken', ha', hp', ht'⟩ := h'.amplifier j a'' ha''
  obtain ⟨a, taken, ha, hp, ht⟩ := h.amplifier j a' ha'
  refine ⟨a, taken ++ taken', ha, ?_, ?_⟩
  · rw [Emissions.of_append]
    exact hp.trans hp'
  · rw [h.size] at ht'
    rw [Emissions.reaching_append, List.map_append, ← List.append_assoc, ht, List.append_assoc, ht',
      List.map_append, List.append_assoc]

theorem getElem?_lt {c : Chain} {j : Nat} {a : Amplifier} (h : c.amplifiers[j]? = some a) :
    j < c.size := (List.getElem?_eq_some_iff.mp h).1

theorem getElem?_of_lt {c : Chain} {j : Nat} (h : j < c.size) : ∃ a, c.amplifiers[j]? = some a :=
  ⟨_, List.getElem?_eq_getElem h⟩

theorem Flow.stays {c c' : Chain} {log : Emissions} (h : Flow c log c') {j : Nat} {a : Amplifier}
    (ha : c.amplifiers[j]? = some a) (hs : a.machine.status ≠ .running) :
    ∃ a', c'.amplifiers[j]? = some a' ∧ a'.machine = a.machine := by
  obtain ⟨a', ha'⟩ := getElem?_of_lt (h.size.symm ▸ getElem?_lt ha)
  obtain ⟨a₀, _, ha₀, hpath, _⟩ := h.amplifier j a' ha'
  cases ha.symm.trans ha₀
  obtain ⟨_, _, hsame⟩ := hpath.of_stopped hs
  exact ⟨a', ha', hsame⟩

theorem flow_of_turn {fuel index : Nat} {c c' : Chain} {out : Option Int}
    (h : c.turn fuel index = some (.ok out, c')) : Flow c (.single index out) c' := by
  rcases turn_ok h with ⟨he, rfl⟩ | ⟨a, a', taken, ha, hp, ht, he⟩
  · exact Flow.of_eq he
  · have hi := getElem?_lt ha
    refine ⟨by simp [Chain.size, he], fun j b' hb' => ?_⟩
    rw [he, List.getElem?_modify] at hb'
    obtain ⟨b, hb, rfl⟩ := Option.map_eq_some_iff.mp hb'
    obtain ⟨hm, hq⟩ := Amplifier.inject_if ((index + 1) % c.size = j) b (out.toList.map .integer)
    rw [hm, hq]
    rw [List.getElem?_set] at hb
    split at hb
    next hij =>
      obtain ⟨_, rfl⟩ : index < c.amplifiers.length ∧ a' = b := by simpa using hb
      subst hij
      refine ⟨a, taken, ha, ?_, ?_⟩
      · rw [Emissions.of_single_self]
        exact hp
      · rw [Emissions.reaching_single hi hi, ht, List.append_assoc]
        split <;> rfl
    next hij =>
      refine ⟨b, [], hb, ?_, ?_⟩
      · rw [Emissions.of_single_ne hij]
        exact .refl _
      · rw [Emissions.reaching_single hi (getElem?_lt hb)]
        split <;> rfl

/-- The values that the turns of a schedule emit up to the first failure. -/
def emissions (fuel : Nat) : (schedule : List Nat) → Chain → Emissions
  | [], _ => []
  | index :: rest, c =>
    match c.turn fuel index with
    | some (.ok out, c) => .single index out ++ emissions fuel rest c
    | _ => []

theorem turns_cons {fuel index : Nat} {rest : List Nat} {last last' : Option Int} {c c' : Chain}
    (h : c.turns fuel (index :: rest) last = some (.ok last', c')) :
    ∃ out c₁, c.turn fuel index = some (.ok out, c₁) ∧
      c₁.turns fuel rest (if index + 1 = c₁.size then out.or last else last) =
        some (.ok last', c') ∧
      c.emissions fuel (index :: rest) = .single index out ++ c₁.emissions fuel rest := by
  rw [turns] at h
  cases ht : c.turn fuel index with
  | none => simp [ht] at h
  | some after =>
    obtain ⟨result, c₁⟩ := after
    cases result with
    | error e => simp [ht] at h
    | ok out =>
      simp only [ht] at h
      exact ⟨out, c₁, rfl, h, by simp [emissions, ht]⟩

theorem flow_of_turns {fuel : Nat} {schedule : List Nat} {last last' : Option Int} {c c' : Chain}
    (h : c.turns fuel schedule last = some (.ok last', c')) :
    Flow c (c.emissions fuel schedule) c' := by
  induction schedule generalizing last c with
  | nil =>
    simp only [turns, Option.some.injEq, Prod.mk.injEq] at h
    obtain ⟨_, rfl⟩ := h
    exact Flow.of_eq rfl
  | cons index rest ih =>
    obtain ⟨out, c₁, ht, hrest, he⟩ := turns_cons h
    rw [he]
    exact (flow_of_turn ht).trans (ih hrest)

theorem turns_last {fuel : Nat} {schedule : List Nat} {last last' : Option Int} {c c' : Chain}
    (hc : 0 < c.size) (h : c.turns fuel schedule last = some (.ok last', c')) :
    last' = (((c.emissions fuel schedule).of (c.size - 1)).getLast?.or last) := by
  induction schedule generalizing last c with
  | nil =>
    simp only [turns, Option.some.injEq, Prod.mk.injEq, Except.ok.injEq] at h
    simp [emissions, h.1]
  | cons index rest ih =>
    obtain ⟨out, c₁, ht, hrest, he⟩ := turns_cons h
    have hsize := (flow_of_turn ht).size
    have hlast := ih (hsize ▸ hc) hrest
    rw [hlast, he, hsize, Emissions.of_append, List.getLast?_append, Option.or_assoc]
    congr 1
    split
    next hi =>
      obtain rfl : index = c.size - 1 := by omega
      rw [Emissions.of_single_self]
      cases out <;> rfl
    next hi =>
      rw [Emissions.of_single_ne (by omega)]
      rfl

end Chain

end Intcode
