import Intcode.Proofs.Path
import Intcode.Journal
import Intcode.Queue

namespace Intcode

/-- The host hands out a list of values in order, and has no value once they are used up. -/
structure Host.Serves {σ : Type} (host : Host σ) (why : Exhaustion) (pending : σ → List Value) :
    Prop where
  starved : ∀ s, pending s = [] → host.take s = (.error (.exhausted why), s)
  served : ∀ s v rest, pending s = v :: rest → ∃ s', host.take s = (.ok v, s') ∧ pending s' = rest
  watched : ∀ m result s, pending (host.watch m result s) = pending s

theorem Queue.host_serves : Queue.host.Serves .emptyQueue Queue.pending := by
  refine ⟨fun q hq => ?_, fun q v rest hq => ⟨⟨rest⟩, ?_, rfl⟩, fun _ _ _ => rfl⟩
  · simp [Queue.host, Queue.pop, hq]
  · simp [Queue.host, Queue.pop, hq]

theorem Host.sequence_serves : Host.sequence.Serves .endOfSequence id := by
  refine ⟨fun s hs => ?_, fun s v rest hs => ⟨rest, ?_, rfl⟩, fun _ _ _ => rfl⟩
  · cases hs
    rfl
  · cases hs
    rfl

theorem Host.Serves.journaled {σ : Type} {host : Host σ} {why : Exhaustion}
    {pending : σ → List Value} (h : host.Serves why pending) :
    host.journaled.Serves why fun s => pending s.1 := by
  refine ⟨fun s hs => ?_, fun s v rest hs => ?_, fun m result s => h.watched m result s.1⟩
  · simp [Host.journaled, h.starved s.1 hs]
  · obtain ⟨inner, ht, hp⟩ := h.served s.1 v rest hs
    exact ⟨(inner, s.2), by simp [Host.journaled, ht], hp⟩

/-- How a host that drives a machine itself has got on: the outputs are there also after a
failure. -/
structure Driven (σ : Type) where
  outputs : List Int
  result : Except Error Unit
  machine : Machine
  host : σ
deriving DecidableEq

namespace Driven

variable {σ : Type}

def after (earlier : List Int) (d : Driven σ) : Driven σ :=
  { d with outputs := earlier ++ d.outputs }

def collected (earlier : List Int) (d : Driven σ) : Outcome σ (List Int) :=
  ⟨d.result.map fun _ => earlier ++ d.outputs, d.machine, d.host⟩

end Driven

namespace Machine

/-- Calls for one output after the other until there is none. -/
def callSteps {σ : Type} (host : Host σ) : (fuel : Nat) → Machine → σ → Option (Driven σ)
  | 0, _, _ => none
  | fuel + 1, m, s =>
    match m.step host (fuel + 1) s with
    | none => none
    | some o =>
      match o.result with
      | .error e => some ⟨[], .error e, o.machine, o.host⟩
      | .ok none => some ⟨[], .ok (), o.machine, o.host⟩
      | .ok (some v) => (callSteps host fuel o.machine o.host).map (.after [v])

section

variable {σ : Type} {host : Host σ}

theorem step_of_silent {m m' : Machine} {s s' : σ} (h : m.stepWatched host s = ⟨.ok none, m', s'⟩)
    (hr : m'.isRunning = true) (fuel : Nat) : m.step host (fuel + 1) s = m'.step host fuel s' := by
  simp [step, h, hr]

theorem step_of_stop {m m' : Machine} {s s' : σ} {result : Except Error (Option Int)}
    (h : m.stepWatched host s = ⟨result, m', s'⟩) (hr : result = .ok none → m'.isRunning = false)
    (fuel : Nat) : m.step host (fuel + 1) s = some ⟨result, m', s'⟩ := by
  rw [step, h]
  split
  next hn => simp [hr hn]
  next => rfl

theorem stop_or_silent (result : Except Error (Option Int)) (m : Machine) :
    (result = .ok none → m.isRunning = false) ∨ result = .ok none ∧ m.isRunning = true := by
  by_cases he : result = .ok none
  · cases m.isRunning with
    | true => exact .inr ⟨he, rfl⟩
    | false => exact .inl fun _ => rfl
  · exact .inl fun hn => absurd hn he

/-- What holds of the last instruction of a run to the next output, and is handed on by the
instructions before it, holds of the run. -/
theorem step_induction {motive : Machine → σ → Outcome σ (Option Int) → Prop}
    (stop : ∀ m s, ((m.stepWatched host s).result = .ok none →
      (m.stepWatched host s).machine.isRunning = false) → motive m s (m.stepWatched host s))
    (silent : ∀ m s o, (m.stepWatched host s).result = .ok none →
      (m.stepWatched host s).machine.isRunning = true →
      motive (m.stepWatched host s).machine (m.stepWatched host s).host o → motive m s o)
    {fuel : Nat} {m : Machine} {s : σ} {o : Outcome σ (Option Int)}
    (h : m.step host fuel s = some o) : motive m s o := by
  induction fuel generalizing m s with
  | zero => simp [step] at h
  | succ fuel ih =>
    rcases stop_or_silent (m.stepWatched host s).result (m.stepWatched host s).machine with
      hstop | ⟨hn, hr⟩
    · cases (step_of_stop rfl hstop fuel).symm.trans h
      exact stop m s hstop
    · have hw : m.stepWatched host s =
          ⟨.ok none, (m.stepWatched host s).machine, (m.stepWatched host s).host⟩ := by
        rw [← hn]
      rw [step_of_silent hw hr] at h
      exact silent m s o hn hr (ih h)

theorem collectFrom_induction {motive : Machine → σ → Outcome σ (List Int) → Prop}
    (fail : ∀ m s fuel o e, m.step host fuel s = some o → o.result = .error e →
      motive m s ⟨.error e, o.machine, o.host⟩)
    (halt : ∀ m s fuel o outputs, m.step host fuel s = some o → o.result = .ok none →
      motive m s ⟨.ok outputs, o.machine, o.host⟩)
    (output : ∀ m s fuel o v o', m.step host fuel s = some o → o.result = .ok (some v) →
      motive o.machine o.host o' → motive m s o')
    {fuel : Nat} {earlier : List Int} {m : Machine} {s : σ} {o : Outcome σ (List Int)}
    (h : m.collectFrom host fuel earlier s = some o) : motive m s o := by
  induction fuel generalizing earlier m s with
  | zero => simp [collectFrom] at h
  | succ fuel ih =>
    simp only [collectFrom] at h
    cases hs : m.step host (fuel + 1) s with
    | none => simp [hs] at h
    | some o' =>
      simp only [hs] at h
      split at h
      next e he =>
        cases h
        exact fail m s (fuel + 1) o' e hs he
      next hn =>
        cases h
        exact halt m s (fuel + 1) o' _ hs hn
      next v hv => exact output m s (fuel + 1) o' v o hs hv (ih h)

theorem step_mono {fuel fuel' : Nat} {m : Machine} {s : σ} {o : Outcome σ (Option Int)}
    (h : m.step host fuel s = some o) (hle : fuel ≤ fuel') : m.step host fuel' s = some o := by
  induction fuel generalizing fuel' m s with
  | zero => simp [step] at h
  | succ fuel ih =>
    obtain ⟨more, rfl⟩ : ∃ more, fuel' = more + 1 := ⟨fuel' - 1, by omega⟩
    rcases hw : m.stepWatched host s with ⟨result, m', s'⟩
    rcases stop_or_silent result m' with hstop | ⟨rfl, hr⟩
    · rw [step_of_stop hw hstop] at h ⊢
      exact h
    · rw [step_of_silent hw hr] at h ⊢
      exact ih h (by omega)

theorem callSteps_mono {fuel fuel' : Nat} {m : Machine} {s : σ} {d : Driven σ}
    (h : m.callSteps host fuel s = some d) (hle : fuel ≤ fuel') :
    m.callSteps host fuel' s = some d := by
  induction fuel generalizing fuel' m s d with
  | zero => simp [callSteps] at h
  | succ fuel ih =>
    obtain ⟨more, rfl⟩ : ∃ more, fuel' = more + 1 := ⟨fuel' - 1, by omega⟩
    simp only [callSteps] at h ⊢
    cases hs : m.step host (fuel + 1) s with
    | none => simp [hs] at h
    | some o =>
      rw [step_mono hs hle]
      simp only [hs] at h ⊢
      split at h
      next => exact h
      next => exact h
      next v hv =>
        obtain ⟨d', hd, rfl⟩ := Option.map_eq_some_iff.mp h
        rw [ih hd (by omega)]
        rfl

theorem callSteps_of_silent {m m' : Machine} {s s' : σ} {fuel : Nat} {d : Driven σ}
    (h : m.stepWatched host s = ⟨.ok none, m', s'⟩) (hr : m'.isRunning = true)
    (hc : m'.callSteps host fuel s' = some d) : m.callSteps host (fuel + 1) s = some d := by
  cases fuel with
  | zero => simp [callSteps] at hc
  | succ fuel =>
    rw [callSteps] at hc ⊢
    rw [step_of_silent h hr]
    cases hs : m'.step host (fuel + 1) s' with
    | none => simp [hs] at hc
    | some o =>
      simp only [hs] at hc ⊢
      split at hc
      next => exact hc
      next => exact hc
      next v hv =>
        obtain ⟨d', hd, rfl⟩ := Option.map_eq_some_iff.mp hc
        rw [callSteps_mono hd (Nat.le_succ fuel)]
        rfl

theorem callSteps_of_output {m m' : Machine} {s s' : σ} {v : Int} {fuel : Nat} {d : Driven σ}
    (h : m.stepWatched host s = ⟨.ok (some v), m', s'⟩) (hc : m'.callSteps host fuel s' = some d) :
    m.callSteps host (fuel + 1) s = some (d.after [v]) := by
  rw [callSteps, step_of_stop h (by simp)]
  exact congrArg (Option.map (Driven.after [v])) hc

theorem callSteps_of_halt {m m' : Machine} {s s' : σ}
    (h : m.stepWatched host s = ⟨.ok none, m', s'⟩) (hr : m'.isRunning = false) :
    m.callSteps host 1 s = some ⟨[], .ok (), m', s'⟩ := by
  rw [callSteps, step_of_stop h fun _ => hr]

theorem callSteps_of_error {m m' : Machine} {s s' : σ} {e : Error}
    (h : m.stepWatched host s = ⟨.error e, m', s'⟩) :
    m.callSteps host 1 s = some ⟨[], .error e, m', s'⟩ := by
  rw [callSteps, step_of_stop h nofun]

theorem collectFrom_eq_callSteps (fuel : Nat) (earlier : List Int) (m : Machine) (s : σ) :
    m.collectFrom host fuel earlier s =
      (m.callSteps host fuel s).map (Driven.collected earlier.reverse) := by
  induction fuel generalizing earlier m s with
  | zero => rfl
  | succ fuel ih =>
    simp only [collectFrom, callSteps]
    cases m.step host (fuel + 1) s with
    | none => rfl
    | some o =>
      obtain ⟨result, m', s'⟩ := o
      rcases result with e | _ | v
      · rfl
      · simp [Driven.collected, Except.map]
      · simp only [ih (v :: earlier) m' s', Option.map_map]
        congr 1
        funext d
        simp [Driven.collected, Driven.after]

theorem collectFrom_mono {fuel fuel' : Nat} {earlier : List Int} {m : Machine} {s : σ}
    {o : Outcome σ (List Int)} (h : m.collectFrom host fuel earlier s = some o)
    (hle : fuel ≤ fuel') : m.collectFrom host fuel' earlier s = some o := by
  rw [collectFrom_eq_callSteps] at h ⊢
  obtain ⟨d, hd, rfl⟩ := Option.map_eq_some_iff.mp h
  rw [callSteps_mono hd hle]
  rfl

theorem collectFrom_of_silent {m m' : Machine} {s s' : σ} {fuel : Nat} {earlier : List Int}
    {o : Outcome σ (List Int)} (h : m.stepWatched host s = ⟨.ok none, m', s'⟩)
    (hr : m'.isRunning = true) (hc : m'.collectFrom host fuel earlier s' = some o) :
    m.collectFrom host (fuel + 1) earlier s = some o := by
  rw [collectFrom_eq_callSteps] at hc ⊢
  obtain ⟨d, hd, rfl⟩ := Option.map_eq_some_iff.mp hc
  rw [callSteps_of_silent h hr hd]
  rfl

theorem collectFrom_of_output {m m' : Machine} {s s' : σ} {v : Int} {fuel : Nat}
    {earlier : List Int} {o : Outcome σ (List Int)}
    (h : m.stepWatched host s = ⟨.ok (some v), m', s'⟩)
    (hc : m'.collectFrom host fuel (v :: earlier) s' = some o) :
    m.collectFrom host (fuel + 1) earlier s = some o := by
  rw [collectFrom, step_of_stop h (by simp)]
  exact hc

theorem collectFrom_of_halt {m m' : Machine} {s s' : σ} (earlier : List Int)
    (h : m.stepWatched host s = ⟨.ok none, m', s'⟩) (hr : m'.isRunning = false) :
    m.collectFrom host 1 earlier s = some ⟨.ok earlier.reverse, m', s'⟩ := by
  rw [collectFrom, step_of_stop h fun _ => hr]

theorem collectFrom_of_error {m m' : Machine} {s s' : σ} {e : Error} (earlier : List Int)
    (h : m.stepWatched host s = ⟨.error e, m', s'⟩) :
    m.collectFrom host 1 earlier s = some ⟨.error e, m', s'⟩ := by
  rw [collectFrom, step_of_stop h (by simp)]

end

section

variable {σ : Type} {host : Host σ} {why : Exhaustion} {pending : σ → List Value}

theorem stepWatched_done (hs : host.Serves why pending) {m m' : Machine}
    {result : Except Error (Option Int)} (hm : m.move = .done result m') (s : σ) :
    ∃ s', m.stepWatched host s = ⟨result, m', s'⟩ ∧ pending s' = pending s :=
  ⟨host.watch m result s, by simp [stepWatched, stepInstruction_eq_meet, hm, Move.meet],
    hs.watched m result s⟩

theorem stepWatched_starved (hs : host.Serves why pending) {m w : Machine} {d : Nat} {next : Int}
    (hm : m.move = .await w d next) {s : σ} (hp : pending s = []) :
    ∃ s', m.stepWatched host s = ⟨.error (.inputExhausted why), w, s'⟩ ∧ pending s' = [] := by
  refine ⟨host.watch m (.error (.inputExhausted why)) s, ?_, (hs.watched m _ s).trans hp⟩
  simp [stepWatched, stepInstruction_eq_meet, hm, Move.meet, perform, hs.starved s hp,
    Refusal.toError]

theorem stepWatched_served (hs : host.Serves why pending) {m w : Machine} {d : Nat} {next : Int}
    (hm : m.move = .await w d next) {s : σ} {value : Value} {rest : List Value}
    (hp : pending s = value :: rest) :
    ∃ s', pending s' = rest ∧ m.stepWatched host s =
      match value.toCell with
      | .ok v => ⟨.ok none, w.accept d v next, s'⟩
      | .error e => ⟨.error e, w, s'⟩ := by
  obtain ⟨s', ht, hp'⟩ := hs.served s value rest hp
  cases hv : value.toCell with
  | ok v =>
    refine ⟨host.watch m (.ok none) s', (hs.watched m _ s').trans hp', ?_⟩
    simp [stepWatched, stepInstruction_eq_meet, hm, Move.meet, perform, ht, hv, accept]
  | error e =>
    refine ⟨host.watch m (.error e) s', (hs.watched m _ s').trans hp', ?_⟩
    simp [stepWatched, stepInstruction_eq_meet, hm, Move.meet, perform, ht, hv]

/-- The machine comes to its next output or to an end on a list of values, and leaves some of
them. -/
inductive Steps (why : Exhaustion) : Machine → List Value → Except Error (Option Int) → Machine →
    List Value → Prop
  | stop {m m' : Machine} {result : Except Error (Option Int)} {values : List Value} :
      m.move = .done result m' → (result = .ok none → m'.isRunning = false) →
      Steps why m values result m' values
  | silent {m m₁ m' : Machine} {result : Except Error (Option Int)} {values left : List Value} :
      m.move = .done (.ok none) m₁ → m₁.isRunning = true → Steps why m₁ values result m' left →
      Steps why m values result m' left
  | starved {m w : Machine} {d : Nat} {next : Int} :
      m.move = .await w d next → Steps why m [] (.error (.inputExhausted why)) w []
  | refused {m w : Machine} {d : Nat} {next : Int} {value : Value} {rest : List Value} {e : Error} :
      m.move = .await w d next → value.toCell = .error e →
      Steps why m (value :: rest) (.error e) w rest
  | served {m w m' : Machine} {d : Nat} {next v : Int} {result : Except Error (Option Int)}
      {rest left : List Value} :
      m.move = .await w d next → Steps why (w.accept d v next) rest result m' left →
      Steps why m (.integer v :: rest) result m' left

theorem steps_of_step (hs : host.Serves why pending) {fuel : Nat} {m : Machine} {s : σ}
    {o : Outcome σ (Option Int)} (h : m.step host fuel s = some o) :
    Steps why m (pending s) o.result o.machine (pending o.host) := by
  induction fuel generalizing m s with
  | zero => simp [step] at h
  | succ fuel ih =>
    cases hm : m.move with
    | done result m' =>
      obtain ⟨s', hw, hp⟩ := stepWatched_done hs hm s
      rw [← hp]
      rcases stop_or_silent result m' with hstop | ⟨rfl, hr⟩
      · cases (step_of_stop hw hstop fuel).symm.trans h
        exact .stop hm hstop
      · rw [step_of_silent hw hr] at h
        exact .silent hm hr (ih h)
    | await w d next =>
      cases hpend : pending s with
      | nil =>
        obtain ⟨s', hw, hp⟩ := stepWatched_starved hs hm hpend
        cases (step_of_stop hw (by simp) fuel).symm.trans h
        rw [hp]
        exact .starved hm
      | cons value rest =>
        obtain ⟨s', rfl, hw⟩ := stepWatched_served hs hm hpend
        cases hv : value.toCell with
        | error e =>
          simp only [hv] at hw
          cases (step_of_stop hw (by simp) fuel).symm.trans h
          exact .refused hm hv
        | ok v =>
          simp only [hv] at hw
          have hr := isRunning_iff.mpr (move_await_accept hm v)
          rw [step_of_silent hw hr] at h
          rw [Value.toCell_ok hv]
          exact .served hm (ih h)

theorem Steps.path {m m' : Machine} {values left : List Value} {out : Option Int}
    (h : Steps why m values (.ok out) m' left) :
    ∃ taken : List Int, Path m taken out.toList m' ∧ values = taken.map .integer ++ left := by
  generalize hr : Except.ok out = result at h
  induction h with
  | stop hm _ =>
    subst hr
    exact ⟨[], by simpa using Path.done hm (.refl _), rfl⟩
  | silent hm _ _ ih =>
    obtain ⟨taken, hpath, htaken⟩ := ih hr
    exact ⟨taken, .done hm hpath, htaken⟩
  | starved => cases hr
  | refused => cases hr
  | @served m w m' d next v result rest left hm _ ih =>
    obtain ⟨taken, hpath, htaken⟩ := ih hr
    refine ⟨v :: taken, .take hm hpath, ?_⟩
    rw [htaken, List.map_cons, List.cons_append]

/-- A path to the end of a program is a run on every list that begins with the values taken. -/
theorem collectFrom_of_path (hs : host.Serves why pending) {m m' : Machine}
    {taken emitted : List Int}
    (h : Path m taken emitted m') (hr : m.status = .running) (hh : m'.status = .halted)
    {rest : List Value} {s : σ} (hp : pending s = taken.map .integer ++ rest) (earlier : List Int) :
    ∃ fuel s', m.collectFrom host fuel earlier s =
      some ⟨.ok (earlier.reverse ++ emitted), m', s'⟩ ∧ pending s' = rest := by
  induction h generalizing s earlier with
  | refl m => simp [hr] at hh
  | @done m m₁ m' out taken emitted hm hpath ih =>
    obtain ⟨s₁, hw, hp₁⟩ := stepWatched_done hs hm s
    rcases (move_ok hm).2 with hr₁ | ⟨hh₁, rfl⟩
    · cases out with
      | none =>
        obtain ⟨fuel, s', hc, hp'⟩ := ih hr₁ hh (hp₁.trans hp) earlier
        exact ⟨fuel + 1, s', collectFrom_of_silent hw (isRunning_iff.mpr hr₁) hc, hp'⟩
      | some v =>
        obtain ⟨fuel, s', hc, hp'⟩ := ih hr₁ hh (hp₁.trans hp) (v :: earlier)
        refine ⟨fuel + 1, s', ?_, hp'⟩
        rw [collectFrom_of_output hw hc]
        simp
    · obtain ⟨rfl, rfl, rfl⟩ := hpath.of_stopped (by simp [hh₁])
      refine ⟨1, s₁, ?_, hp₁.trans (by simpa using hp)⟩
      rw [collectFrom_of_halt earlier hw (isRunning_eq_false.mpr (by simp [hh₁]))]
      simp
  | @take m w m' d next v taken emitted hm hpath ih =>
    obtain ⟨s₁, hp₁, hw⟩ := stepWatched_served hs hm hp
    have hw₁ := move_await_accept hm v
    obtain ⟨fuel, s', hc, hp'⟩ := ih hw₁ hh hp₁ earlier
    exact ⟨fuel + 1, s', collectFrom_of_silent hw (isRunning_iff.mpr hw₁) hc, hp'⟩

theorem run_of_path {m m' : Machine} {taken emitted : List Int} (h : Path m taken emitted m')
    (hr : m.status = .running) (hh : m'.status = .halted) (rest : List Value) :
    ∃ enough, ∀ fuel ≥ enough,
      m.run fuel (taken.map .integer ++ rest) = some ⟨.ok emitted, m', rest⟩ := by
  obtain ⟨enough, s', hc, rfl⟩ := collectFrom_of_path Host.sequence_serves h hr hh rfl []
  exact ⟨enough, fun fuel hf => collectFrom_mono hc hf⟩

end

end Machine

end Intcode
