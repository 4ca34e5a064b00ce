import Intcode.Proofs.Stepping

namespace Intcode

deriving instance DecidableEq for Outcome

section

variable {σ τ α : Type}

def Outcome.mapHost (f : τ → σ) (o : Outcome τ α) : Outcome σ α := ⟨o.result, o.machine, f o.host⟩

theorem Outcome.exists_of_mapHost {f : τ → σ} {wide : Option (Outcome τ α)} {o : Outcome σ α}
    (h : some o = wide.map (mapHost f)) :
    ∃ t, wide = some ⟨o.result, o.machine, t⟩ ∧ f t = o.host := by
  obtain ⟨⟨result, m, t⟩, hw, hmap⟩ := Option.map_eq_some_iff.mp h.symm
  cases hmap
  exact ⟨t, hw, rfl⟩

/-- The host behaves as the other one does on a part of its state. -/
structure Host.Extends (wide : Host τ) (host : Host σ) (part : τ → σ) : Prop where
  take : ∀ t, host.take (part t) = ((wide.take t).1, part (wide.take t).2)
  watch : ∀ m result t, host.watch m result (part t) = part (wide.watch m result t)

/-- The host, with the values that it has given. -/
def Host.recorded (host : Host σ) : Host (σ × List Value) where
  take s :=
    match host.take s.1 with
    | (.ok v, inner) => (.ok v, (inner, s.2 ++ [v]))
    | (.error refusal, inner) => (.error refusal, (inner, s.2))
  watch m result s := (host.watch m result s.1, s.2)

theorem Host.recorded_extends (host : Host σ) : host.recorded.Extends host Prod.fst := by
  refine ⟨fun t => ?_, fun m result t => rfl⟩
  simp only [Host.recorded]
  generalize host.take t.1 = taken
  obtain ⟨given, inner⟩ := taken
  cases given <;> rfl

theorem Host.journaled_extends (host : Host σ) : host.journaled.Extends host Prod.fst :=
  ⟨fun _ => rfl, fun _ _ _ => rfl⟩

/-- The host keeps a property of its state. -/
structure Host.Keeps (host : Host σ) (P : σ → Prop) : Prop where
  take : ∀ s, P s → P (host.take s).2
  watch : ∀ m result s, P s → P (host.watch m result s)

namespace Machine

variable {wide : Host τ} {host : Host σ} {part : τ → σ}

theorem perform_extends (h : wide.Extends host part) (m : Machine) (t : τ) (next : Int)
    (action : Action) :
    m.perform host (part t) next action = (m.perform wide t next action).mapHost part := by
  cases action with
  | store | emit | jump | shiftBase | pass | halt => rfl
  | receive d =>
    simp only [perform, h.take t]
    generalize wide.take t = taken
    obtain ⟨given, t'⟩ := taken
    cases given with
    | error refusal => rfl
    | ok value =>
      simp only
      cases value.toCell <;> rfl

theorem stepInstruction_extends (h : wide.Extends host part) (m : Machine) (t : τ) :
    m.stepInstruction host (part t) = (m.stepInstruction wide t).mapHost part := by
  unfold stepInstruction
  cases m.status with
  | halted => rfl
  | faulted f => rfl
  | running =>
    simp only
    cases m.fetch.run m.memory with
    | error f memory => rfl
    | ok fetched memory => exact perform_extends h _ t _ _

theorem stepWatched_extends (h : wide.Extends host part) (m : Machine) (t : τ) :
    m.stepWatched host (part t) = (m.stepWatched wide t).mapHost part := by
  unfold stepWatched
  rw [stepInstruction_extends h m t]
  simp only [Outcome.mapHost, h.watch]

theorem step_extends (h : wide.Extends host part) (fuel : Nat) (m : Machine) (t : τ) :
    m.step host fuel (part t) = (m.step wide fuel t).map (Outcome.mapHost part) := by
  induction fuel generalizing m t with
  | zero => rfl
  | succ fuel ih =>
    simp only [step, stepWatched_extends h m t]
    generalize m.stepWatched wide t = o
    obtain ⟨result, m', t'⟩ := o
    rcases result with e | _ | v
    · rfl
    · by_cases hr : m'.isRunning = true
      · simpa only [Outcome.mapHost, hr, if_true] using ih m' t'
      · simp [Outcome.mapHost, hr]
    · rfl

theorem step_of_extends (h : wide.Extends host part) {fuel : Nat} {m : Machine} {t : τ}
    {o : Outcome σ (Option Int)} (ho : m.step host fuel (part t) = some o) :
    ∃ t', m.step wide fuel t = some ⟨o.result, o.machine, t'⟩ ∧ part t' = o.host :=
  Outcome.exists_of_mapHost (ho.symm.trans (step_extends h fuel m t))

theorem collectFrom_extends (h : wide.Extends host part) (fuel : Nat) (earlier : List Int)
    (m : Machine) (t : τ) :
    m.collectFrom host fuel earlier (part t) =
      (m.collectFrom wide fuel earlier t).map (Outcome.mapHost part) := by
  induction fuel generalizing earlier m t with
  | zero => rfl
  | succ fuel ih =>
    simp only [collectFrom, step_extends h (fuel + 1) m t]
    cases m.step wide (fuel + 1) t with
    | none => rfl
    | some o =>
      obtain ⟨result, m', t'⟩ := o
      rcases result with e | _ | v
      · rfl
      · rfl
      · exact ih (v :: earlier) m' t'

theorem collectFrom_of_extends (h : wide.Extends host part) {fuel : Nat} {earlier : List Int}
    {m : Machine} {t : τ} {o : Outcome σ (List Int)}
    (ho : m.collectFrom host fuel earlier (part t) = some o) :
    ∃ t', m.collectFrom wide fuel earlier t = some ⟨o.result, o.machine, t'⟩ ∧ part t' = o.host :=
  Outcome.exists_of_mapHost (ho.symm.trans (collectFrom_extends h fuel earlier m t))

theorem collect_journaled (fuel : Nat) (m : Machine) (s : σ) (journal : Journal) :
    m.collect host fuel s =
      (m.collect host.journaled fuel (s, journal)).map (Outcome.mapHost Prod.fst) :=
  collectFrom_extends host.journaled_extends fuel [] m (s, journal)

theorem step_recorded {fuel : Nat} {m : Machine} {s : σ} {o : Outcome σ (Option Int)}
    (h : m.step host fuel s = some o) (record : List Value) :
    ∃ record', m.step host.recorded fuel (s, record) =
      some ⟨o.result, o.machine, (o.host, record')⟩ := by
  have hstep : m.step host fuel (s, record).1 = some o := h
  obtain ⟨⟨inner, record'⟩, hr, rfl⟩ := step_of_extends host.recorded_extends hstep
  exact ⟨record', hr⟩

variable {P : σ → Prop}

theorem stepInstruction_keeps (h : host.Keeps P) (m : Machine) {s : σ} (hs : P s) :
    P (m.stepInstruction host s).host := by
  rw [stepInstruction_eq_meet]
  cases m.move with
  | done result m' => exact hs
  | await w d next =>
    have ht := h.take s hs
    simp only [Move.meet, perform]
    generalize host.take s = taken at ht ⊢
    obtain ⟨given, s'⟩ := taken
    cases given with
    | error refusal => exact ht
    | ok value =>
      simp only
      cases value.toCell <;> exact ht

theorem step_keeps (h : host.Keeps P) {fuel : Nat} {m : Machine} {s : σ}
    {o : Outcome σ (Option Int)} (ho : m.step host fuel s = some o) (hs : P s) : P o.host := by
  have hw : ∀ (m : Machine) (s : σ), P s → P (m.stepWatched host s).host := fun m s hs =>
    h.watch m _ _ (stepInstruction_keeps h m hs)
  exact step_induction (motive := fun _ s o => P s → P o.host) (fun m s _ hs => hw m s hs)
    (fun m s _ _ _ ih hs => ih (hw m s hs)) ho hs

/-- The values that an instruction with this result emits. -/
def emissionOf : Except Error (Option Int) → List Int
  | .ok out => out.toList
  | .error _ => []

theorem perform_counts (host : Host σ) (m : Machine) (s : σ) (next : Int) (action : Action) :
    (m.perform host s next action).machine.executed =
        m.executed + (m.perform host s next action).result.isOk.toNat ∧
      (m.perform host s next action).machine.emitted =
        m.emitted + (emissionOf (m.perform host s next action).result).length := by
  cases action with
  | store | emit | jump | shiftBase | pass | halt => exact ⟨rfl, rfl⟩
  | receive d =>
    simp only [perform]
    generalize host.take s = taken
    obtain ⟨given, s'⟩ := taken
    cases given with
    | error refusal => exact ⟨rfl, rfl⟩
    | ok value =>
      simp only
      cases value.toCell <;> exact ⟨rfl, rfl⟩

/-- The counters grow by one for a completed instruction and for its output. -/
theorem stepInstruction_counts (host : Host σ) (m : Machine) (s : σ) :
    (m.stepInstruction host s).machine.executed =
        m.executed + (m.stepInstruction host s).result.isOk.toNat ∧
      (m.stepInstruction host s).machine.emitted =
        m.emitted + (emissionOf (m.stepInstruction host s).result).length := by
  unfold stepInstruction
  cases m.status with
  | halted => exact ⟨rfl, rfl⟩
  | faulted f => exact ⟨rfl, rfl⟩
  | running =>
    simp only
    cases m.fetch.run m.memory with
    | error f memory =>
      simp only [fail]
      split <;> exact ⟨rfl, rfl⟩
    | ok fetched memory => exact perform_counts host _ s _ _

theorem step_emitted {fuel : Nat} {m : Machine} {s : σ} {o : Outcome σ (Option Int)}
    (h : m.step host fuel s = some o) :
    o.machine.emitted = m.emitted + (emissionOf o.result).length := by
  have hw : ∀ (m : Machine) (s : σ), (m.stepWatched host s).machine.emitted =
      m.emitted + (emissionOf (m.stepWatched host s).result).length := fun m s =>
    (stepInstruction_counts host m s).2
  refine step_induction (motive := fun m _ o =>
    o.machine.emitted = m.emitted + (emissionOf o.result).length) (fun m s _ => hw m s) ?_ h
  intro m s o hn _ ih
  have hsilent := hw m s
  rw [hn] at hsilent
  rw [ih, hsilent]
  rfl

end Machine

/-- What a host has given and what it still has are all that it had. -/
theorem Host.Serves.recorded_keeps {host : Host σ} {why : Exhaustion} {pending : σ → List Value}
    (h : host.Serves why pending) (values : List Value) :
    host.recorded.Keeps fun s => s.2 ++ pending s.1 = values := by
  refine ⟨fun s hs => ?_, fun m result s hs => ?_⟩
  · simp only [Host.recorded]
    cases hp : pending s.1 with
    | nil =>
      rw [h.starved s.1 hp]
      exact hs
    | cons v rest =>
      obtain ⟨inner, ht, hrest⟩ := h.served s.1 v rest hp
      rw [hp] at hs
      rw [ht]
      simpa [hrest] using hs
  · simpa only [Host.recorded, h.watched] using hs

end

end Intcode
