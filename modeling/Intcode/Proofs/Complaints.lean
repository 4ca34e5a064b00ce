import Intcode.Proofs.Status
import Intcode.Proofs.Wording

namespace Intcode

namespace Error

theorem Plain.of_ne {e : Error} (h : ∀ c, e ≠ .rejected c) : e.Plain := fun c hc => absurd hc (h c)

theorem plain_ofFault (f : Fault) : (Error.ofFault f).Plain := by
  refine .of_ne fun c => ?_
  unfold ofFault
  split <;> exact nofun

theorem plain_refusal (refusal : Refusal) : refusal.toError.Plain := by
  refine .of_ne fun c => ?_
  cases refusal <;> exact nofun

theorem plain_ofComplaint {c : Complaint} (h : c.Plain) : (Error.ofComplaint c).Plain := by
  unfold ofComplaint
  split
  · intro c' hc
    cases hc
    exact h
  · exact .of_ne fun c => nofun

end Error

theorem Value.plain_toCell {value : Value} {e : Error} (h : value.toCell = .error e) : e.Plain := by
  rw [Value.toCell_error h]
  exact .of_ne fun c => nofun

theorem Value.plain_of_mapM {values : List Value} {e : Error}
    (h : values.mapM Value.toCell = .error e) : e.Plain := by
  induction values with
  | nil => cases h
  | cons value rest ih =>
    rw [List.mapM_cons] at h
    cases hv : value.toCell with
    | error e' =>
      rw [hv] at h
      cases h
      exact plain_toCell hv
    | ok v =>
      rw [hv] at h
      cases hr : rest.mapM Value.toCell with
      | error e' =>
        simp only [hr] at h
        cases h
        exact ih hr
      | ok cells =>
        simp only [hr] at h
        cases h

namespace Machine

section

variable {σ : Type} {host : Host σ}

theorem plain_of_stepInstruction {m : Machine} {s : σ} {e : Error}
    (h : (m.stepInstruction host s).result = .error e) : e.Plain := by
  rcases stepInstruction_failed h with
    ⟨m', hm, _⟩ | ⟨w, d, next, _, _, ⟨refusal, _, rfl⟩ | ⟨value, _, hv⟩⟩
  · rcases move_failed hm with ⟨_, _, cause, rfl⟩ | ⟨_, _, f, rfl, _⟩
    · exact .of_ne fun c => nofun
    · exact Error.plain_ofFault f
  · exact Error.plain_refusal refusal
  · exact Value.plain_toCell hv

theorem plain_of_step {fuel : Nat} {m : Machine} {s : σ} {o : Outcome σ (Option Int)} {e : Error}
    (h : m.step host fuel s = some o) (he : o.result = .error e) : e.Plain :=
  step_induction (motive := fun _ _ o => o.result = .error e → e.Plain)
    (fun _ _ _ => plain_of_stepInstruction) (fun _ _ _ _ _ ih => ih) h he

theorem plain_of_collect {fuel : Nat} {m : Machine} {s : σ} {o : Outcome σ (List Int)} {e : Error}
    (h : m.collect host fuel s = some o) (he : o.result = .error e) : e.Plain := by
  refine collectFrom_induction (motive := fun _ _ o => o.result = .error e → e.Plain)
    (fun _ _ _ o e' ho he' he => ?_) (fun _ _ _ _ _ _ _ he => nomatch he)
    (fun _ _ _ _ _ _ _ _ ih => ih) h he
  cases he
  exact plain_of_step ho he'

theorem plain_of_access {α : Type} {m : Machine} {act : Access α} {e : Error}
    (h : (m.access act).1 = .error e) : e.Plain := by
  unfold access at h
  split at h
  next => cases h
  next f memory _ =>
    cases h
    exact Error.plain_ofFault f

theorem plain_of_write {m : Machine} {address : Int} {value : Value} {e : Error}
    (h : (m.write address value).1 = .error e) : e.Plain := by
  unfold write at h
  split at h
  next e' m₁ ha =>
    cases h
    exact plain_of_access (congrArg Prod.fst ha)
  next a m₁ ha =>
    cases hv : value.toCell with
    | error e' =>
      rw [hv] at h
      cases h
      exact Value.plain_toCell hv
    | ok v =>
      rw [hv] at h
      cases h

theorem plain_of_applyPatches {patches : List Patch} {m : Machine} {e : Error}
    (h : applyPatches patches m = .error e) : e.Plain := by
  induction patches generalizing m with
  | nil => cases h
  | cons p rest ih =>
    unfold applyPatches at h
    split at h
    next e' m₁ hw =>
      cases h
      exact plain_of_write (congrArg Prod.fst hw)
    next => exact ih h

end

end Machine

namespace Chain

theorem plain_of_ofPhases {program phases : List Value} {e : Error}
    (h : ofPhases program phases = .error e) : e.Plain := by
  unfold ofPhases at h
  split at h
  · cases h
    exact .of_ne fun c => nofun
  · unfold Machine.load at h
    cases hp : program.mapM Value.toCell with
    | error e' =>
      rw [hp] at h
      cases h
      exact Value.plain_of_mapM hp
    | ok cells =>
      rw [hp] at h
      cases h

theorem plain_of_amplifier {fuel : Nat} {a a' : Amplifier} {journal journal' : Journal} {e : Error}
    (h : a.step fuel journal = some (.error e, a', journal')) : e.Plain := by
  obtain ⟨o, ho, he⟩ := Option.map_eq_some_iff.mp h
  exact Machine.plain_of_step ho (congrArg Prod.fst he)

theorem plain_of_relay {fuel : Nat} {signal : Value} {amplifiers amplifiers' : List Amplifier}
    {journal journal' : Journal} {e : Error}
    (h : relay fuel signal amplifiers journal = some (.error e, amplifiers', journal')) :
    e.Plain := by
  induction amplifiers generalizing signal journal amplifiers' with
  | nil =>
    cases h
    exact .of_ne fun c => nofun
  | cons a rest ih =>
    unfold relay at h
    split at h
    next => cases h
    next e' a' journal₁ ha =>
      cases h
      exact plain_of_amplifier ha
    next =>
      cases h
      exact .of_ne fun c => nofun
    next v a' journal₁ ha =>
      split at h
      next => cases h
      next =>
        obtain ⟨⟨result, rest', journal₂⟩, hr, he⟩ := Option.map_eq_some_iff.mp h
        cases he
        exact ih hr

theorem plain_of_turn {fuel index : Nat} {c c' : Chain} {e : Error}
    (h : c.turn fuel index = some (.error e, c')) : e.Plain := by
  unfold turn at h
  split at h
  next => cases h
  next a ha =>
    split at h
    · cases h
    · split at h
      next => cases h
      next result a' journal hs =>
        cases result with
        | error e' =>
          cases h
          exact plain_of_amplifier hs
        | ok out => cases out <;> cases h

theorem plain_of_turns {fuel : Nat} {schedule : List Nat} {last : Option Int} {c c' : Chain}
    {e : Error} (h : c.turns fuel schedule last = some (.error e, c')) : e.Plain := by
  induction schedule generalizing last c with
  | nil => cases h
  | cons index rest ih =>
    unfold turns at h
    split at h
    next => cases h
    next e' c₁ ht =>
      cases h
      exact plain_of_turn ht
    next => exact ih h

theorem plain_of_rounds {fuel : Nat} {last : Option Int} {c c' : Chain} {e : Error}
    (h : c.roundsFrom fuel last = some (.error e, c')) : e.Plain := by
  induction fuel generalizing last c with
  | zero => cases h
  | succ fuel ih =>
    unfold roundsFrom at h
    split at h
    · split at h
      next =>
        cases h
        exact .of_ne fun c => nofun
      next => cases h
    · split at h
      next => cases h
      next e' c₁ ht =>
        cases h
        exact plain_of_turns ht
      next => exact ih h

theorem plain_of_runSerial {fuel : Nat} {signal : Value} {c c' : Chain} {e : Error}
    (h : c.runSerial fuel signal = some (.error e, c')) : e.Plain := by
  obtain ⟨⟨result, amplifiers, journal⟩, hr, he⟩ := Option.map_eq_some_iff.mp h
  cases he
  exact plain_of_relay hr

theorem plain_of_runFeedback {fuel : Nat} {signal : Value} {c c' : Chain} {e : Error}
    (h : c.runFeedback fuel signal = some (.error e, c')) : e.Plain := plain_of_rounds h

theorem plain_of_signalOf {fuel : Nat} {wiring : Wiring} {program order : List Value}
    {journal journal' : Journal} {e : Error}
    (h : signalOf fuel wiring program order journal = some (.error e, journal')) : e.Plain := by
  unfold signalOf at h
  split at h
  next e' hc =>
    cases h
    exact plain_of_ofPhases hc
  next c hc =>
    cases wiring with
    | serial =>
      obtain ⟨⟨result, c'⟩, hr, he⟩ := Option.map_eq_some_iff.mp h
      cases he
      exact plain_of_runSerial hr
    | feedback =>
      obtain ⟨⟨result, c'⟩, hr, he⟩ := Option.map_eq_some_iff.mp h
      cases he
      exact plain_of_runFeedback hr

theorem plain_of_searchFrom {fuel : Nat} {wiring : Wiring} {program : List Value}
    {orders : List (List Value)} {best : Option Best} {journal journal' : Journal} {e : Error}
    (h : searchFrom fuel wiring program orders best journal = some (.error e, journal')) :
    e.Plain := by
  induction orders generalizing best journal with
  | nil =>
    cases best with
    | none =>
      cases h
      exact .of_ne fun c => nofun
    | some b => cases h
  | cons order orders ih =>
    unfold searchFrom at h
    split at h
    next => cases h
    next e' journal₁ hs =>
      cases h
      exact plain_of_signalOf hs
    next => exact ih h

end Chain

namespace Device

/-- A device whose complaints are plain. -/
def Civil {δ : Type} (device : Device δ) : Prop :=
  ∀ v d e, (device.feed v d).1 = .error e → e.Plain

theorem plain_of_drive {δ : Type} {device : Device δ} (hd : device.Civil) {fuel : Nat}
    {limit : Option Int} {m : Machine} {d : δ} {o : Outcome δ Nat} {e : Error}
    (h : device.drive fuel limit m d = some o) (he : o.result = .error e) : e.Plain := by
  unfold drive at h
  generalize (if m.executed = 0 then device.attach d m else m) = m at h
  generalize 0 = count at h
  induction fuel generalizing count m d with
  | zero => cases h
  | succ fuel ih =>
    unfold driveFrom at h
    split at h
    · cases h
      cases he
    · split at h
      next => cases h
      next o' hs =>
        split at h
        next e' hr =>
          cases h
          cases he
          exact Machine.plain_of_step hs hr
        next =>
          cases h
          cases he
        next v hr =>
          split at h
          next e' d' hf =>
            cases h
            cases he
            exact hd v o'.host e (congrArg Prod.fst hf)
          next => exact ih _ _ h

end Device

theorem Robot.device_civil : Robot.device.Civil := by
  intro v r e h
  have hfeed : (Robot.feed (.integer v) r).1 = .error e := h
  unfold Robot.feed at hfeed
  split at hfeed
  · split at hfeed
    next => cases hfeed
    next =>
      exact Except.error.inj hfeed ▸ Error.plain_ofComplaint (.turn v)
  · split at hfeed
    next => cases hfeed
    next =>
      exact Except.error.inj hfeed ▸ Error.plain_ofComplaint (.paintColor v)

theorem Cabinet.device_civil : Cabinet.device.Civil := by
  intro v c e h
  have hfeed : (Cabinet.feed v c).1 = .error e := h
  unfold Cabinet.feed at hfeed
  split at hfeed
  next => cases hfeed
  next => cases hfeed
  next x y _ =>
    unfold Cabinet.takeTriple at hfeed
    split at hfeed
    · cases hfeed
    · split at hfeed
      next => cases hfeed
      next =>
        exact Except.error.inj hfeed ▸ Error.plain_ofComplaint (.tile v x y)

theorem Robot.plain_of_startColor {code : Value} (hc : (∃ n, code = .integer n) ∨ code = .emptyList)
    {e : Error} (h : Robot.ofStartColor code = .error e) : e.Plain := by
  unfold Robot.ofStartColor at h
  split at h
  next => cases h
  next =>
    cases h
    rcases hc with ⟨n, rfl⟩ | rfl
    · exact Error.plain_ofComplaint (.startColor n)
    · exact Error.plain_ofComplaint .noStartColor

end Intcode
