import Intcode.Peripheral.Basic
import Intcode.Proofs.Record

namespace Intcode

namespace Device

/-- One value that passes between a device and a program. -/
inductive Exchange where
  | given (v : Value)
  | fed (v : Int)
deriving DecidableEq, Repr

abbrev Dialogue := List Exchange

namespace Dialogue

def supplied (log : Dialogue) : List Value :=
  log.filterMap fun
    | .given v => some v
    | .fed _ => none

def fed (log : Dialogue) : List Int :=
  log.filterMap fun
    | .given _ => none
    | .fed v => some v

@[simp] theorem supplied_nil : supplied [] = [] := rfl

@[simp] theorem supplied_given (v : Value) (log : Dialogue) :
    supplied (.given v :: log) = v :: log.supplied := rfl

@[simp] theorem fed_fed (v : Int) (log : Dialogue) : fed (.fed v :: log) = v :: log.fed := rfl

@[simp] theorem fed_append (log more : Dialogue) : fed (log ++ more) = log.fed ++ more.fed :=
  List.filterMap_append

theorem exists_of_supplied {log : Dialogue} {j : Nat} {v : Value} (h : log.supplied[j]? = some v) :
    ∃ before after : Dialogue, log = before ++ .given v :: after ∧
      before.supplied = log.supplied.take j := by
  induction log generalizing j with
  | nil => simp at h
  | cons exchange log ih =>
    cases exchange with
    | fed u =>
      obtain ⟨before, after, rfl, hj⟩ := ih h
      exact ⟨.fed u :: before, after, rfl, hj⟩
    | given u =>
      cases j with
      | zero =>
        obtain rfl : u = v := by simpa using h
        exact ⟨[], log, rfl, rfl⟩
      | succ j =>
        obtain ⟨before, after, rfl, hj⟩ := ih (by simpa using h)
        refine ⟨.given u :: before, after, rfl, ?_⟩
        rw [supplied_given, hj]
        rfl

end Dialogue

variable {δ : Type}

/-- The device, with the dialogue that it has held. -/
def recorded (device : Device δ) : Device (δ × Dialogue) where
  name := device.name
  take s :=
    match device.take s.1 with
    | (.ok v, inner) => (.ok v, (inner, s.2 ++ [.given v]))
    | (.error refusal, inner) => (.error refusal, (inner, s.2))
  watch m result s := (device.watch m result s.1, s.2)
  feed v s :=
    let (result, inner) := device.feed v s.1
    (result, (inner, s.2 ++ [.fed v]))
  attach s m := device.attach s.1 m

theorem recorded_extends (device : Device δ) :
    device.recorded.toHost.Extends device.toHost Prod.fst := by
  refine ⟨fun t => ?_, fun m result t => rfl⟩
  simp only [recorded]
  generalize device.take t.1 = taken
  obtain ⟨given, inner⟩ := taken
  cases given <;> rfl

/-- Only what it is fed changes the device. -/
structure Steady (device : Device δ) : Prop where
  take : ∀ d, (device.take d).2 = d
  watch : ∀ m result d, device.watch m result d = d

/-- The device's part in a dialogue: what it gives follows from what it was fed before. -/
inductive Answers (device : Device δ) : δ → Dialogue → δ → Prop
  | nil (d : δ) : Answers device d [] d
  | given {d d' : δ} {v : Value} {log : Dialogue} :
      (device.take d).1 = .ok v → Answers device d log d' → Answers device d (.given v :: log) d'
  | fed {d d₁ d' : δ} {v : Int} {log : Dialogue} :
      device.feed v d = (.ok (), d₁) → Answers device d₁ log d' →
      Answers device d (.fed v :: log) d'

variable {device : Device δ}

theorem Answers.trans {d d₁ d' : δ} {log more : Dialogue} (h : Answers device d log d₁)
    (h' : Answers device d₁ more d') : Answers device d (log ++ more) d' := by
  induction h with
  | nil => exact h'
  | given ht _ ih => exact .given ht (ih h')
  | fed hf _ ih => exact .fed hf (ih h')

theorem Answers.feedAll {d d' : δ} {log : Dialogue} (h : Answers device d log d') :
    feedAll device.feed log.fed d = (.ok (), d') := by
  induction h with
  | nil => rfl
  | given _ _ ih => exact ih
  | fed hf _ ih => simpa [Device.feedAll, hf] using ih

theorem Answers.at_given {d d' : δ} {before after : Dialogue} {v : Value}
    (h : Answers device d (before ++ .given v :: after) d') :
    ∃ d₁, Answers device d before d₁ ∧ (device.take d₁).1 = .ok v := by
  induction before generalizing d with
  | nil =>
    cases h with
    | given ht _ => exact ⟨d, .nil d, ht⟩
  | cons exchange before ih =>
    cases h with
    | given ht h =>
      obtain ⟨d₁, hb, hv⟩ := ih h
      exact ⟨d₁, .given ht hb, hv⟩
    | fed hf h =>
      obtain ⟨d₁, hb, hv⟩ := ih h
      exact ⟨d₁, .fed hf hb, hv⟩

end Device

namespace Machine

open Device

/-- The machine's part in a dialogue: completed instructions in a row that take what the device
gives and emit what it is fed. -/
inductive Converses : Machine → Dialogue → Machine → Prop
  | refl (m : Machine) : Converses m [] m
  | done {m m' m'' : Machine} {out : Option Int} {log : Dialogue} :
      m.move = .done (.ok out) m' → Converses m' log m'' →
      Converses m (out.toList.map .fed ++ log) m''
  | take {m w m'' : Machine} {d : Nat} {next v : Int} {log : Dialogue} :
      m.move = .await w d next → Converses (w.accept d v next) log m'' →
      Converses m (.given (.integer v) :: log) m''

theorem Converses.trans {m m' m'' : Machine} {log more : Dialogue} (h : Converses m log m')
    (h' : Converses m' more m'') : Converses m (log ++ more) m'' := by
  induction h with
  | refl => exact h'
  | done hm _ ih =>
    rw [List.append_assoc]
    exact .done hm (ih h')
  | take hm _ ih => exact .take hm (ih h')

theorem Converses.path {m m' : Machine} {log : Dialogue} (h : Converses m log m') :
    ∃ taken : List Int, taken.map .integer = log.supplied ∧ Path m taken log.fed m' := by
  induction h with
  | refl m => exact ⟨[], rfl, .refl m⟩
  | @done m m₁ m' out log hm _ ih =>
    obtain ⟨taken, ht, hp⟩ := ih
    refine ⟨taken, ?_, ?_⟩
    · cases out <;> exact ht
    · have hpath : Path m taken (out.toList ++ log.fed) m' := .done hm hp
      cases out <;> exact hpath
  | @take m w m' d next v log hm _ ih =>
    obtain ⟨taken, ht, hp⟩ := ih
    refine ⟨v :: taken, ?_, .take hm hp⟩
    rw [List.map_cons, ht]
    rfl

theorem Converses.at_given {m m' : Machine} {before after : Dialogue} {v : Value}
    (h : Converses m (before ++ .given v :: after) m') :
    ∃ m₁ w d next, Converses m before m₁ ∧ m₁.move = .await w d next := by
  -- The front of the dialogue is taken off step by step, until the value given comes first.
  generalize hlog : before ++ .given v :: after = log at h
  induction h generalizing before with
  | refl => simp at hlog
  | @done m m₁ m' out log hm _ ih =>
    cases out with
    | none =>
      obtain ⟨m₂, w, d, next, hc, ha⟩ := ih hlog
      exact ⟨m₂, w, d, next, .done hm hc, ha⟩
    | some o =>
      cases before with
      | nil => simp at hlog
      | cons exchange before =>
        have hcons : exchange :: (before ++ .given v :: after) = .fed o :: log := hlog
        obtain ⟨rfl, hrest⟩ := List.cons.inj hcons
        obtain ⟨m₂, w, d, next, hc, ha⟩ := ih hrest
        exact ⟨m₂, w, d, next, .done hm hc, ha⟩
  | @take m w m' d next u log hm _ ih =>
    cases before with
    | nil => exact ⟨m, w, d, next, .refl m, hm⟩
    | cons exchange before =>
      have hcons : exchange :: (before ++ .given v :: after) = .given (.integer u) :: log := hlog
      obtain ⟨rfl, hrest⟩ := List.cons.inj hcons
      obtain ⟨m₂, w₂, d₂, next₂, hc, ha⟩ := ih hrest
      exact ⟨m₂, w₂, d₂, next₂, .take hm hc, ha⟩

variable {δ : Type} {device : Device δ}

theorem stepWatched_recorded_done (hd : device.Steady) {m m' : Machine}
    {result : Except Error (Option Int)} (hm : m.move = .done result m') (d : δ) (log : Dialogue) :
    m.stepWatched device.recorded.toHost (d, log) = ⟨result, m', (d, log)⟩ := by
  simp [stepWatched, stepInstruction_eq_meet, hm, Move.meet, recorded, hd.watch]

theorem stepWatched_recorded_await (hd : device.Steady) {m w : Machine} {c : Nat} {next : Int}
    (hm : m.move = .await w c next) (d : δ) (log : Dialogue) :
    (∃ e o, m.stepWatched device.recorded.toHost (d, log) = ⟨.error e, w, o⟩) ∨
      ∃ v, (device.take d).1 = .ok (.integer v) ∧
        m.stepWatched device.recorded.toHost (d, log) =
          ⟨.ok none, w.accept c v next, (d, log ++ [.given (.integer v)])⟩ := by
  have hsame := hd.take d
  rcases ht : device.take d with ⟨given, d₁⟩
  obtain rfl : d₁ = d := by simpa [ht] using hsame
  cases given with
  | error refusal =>
    refine .inl ⟨refusal.toError, (d₁, log), ?_⟩
    simp [stepWatched, stepInstruction_eq_meet, hm, Move.meet, perform, recorded, ht, hd.watch]
  | ok value =>
    cases hv : value.toCell with
    | error e =>
      refine .inl ⟨e, (d₁, log ++ [.given value]), ?_⟩
      simp [stepWatched, stepInstruction_eq_meet, hm, Move.meet, perform, recorded, ht,
        hv, hd.watch]
    | ok v =>
      obtain rfl := Value.toCell_ok hv
      refine .inr ⟨v, rfl, ?_⟩
      simp [stepWatched, stepInstruction_eq_meet, hm, Move.meet, perform, recorded, ht, hv,
        hd.watch, accept]

/-- A run to the next output or to the end is a dialogue in which the device only gives. -/
theorem converses_of_step (hd : device.Steady) {fuel : Nat} {m : Machine} {d : δ} {log : Dialogue}
    {o : Outcome (δ × Dialogue) (Option Int)} {out : Option Int}
    (h : m.step device.recorded.toHost fuel (d, log) = some o) (hr : o.result = .ok out) :
    ∃ said, o.host = (d, log ++ said) ∧ said.fed = [] ∧ device.Answers d said d ∧
      m.Converses (said ++ out.toList.map .fed) o.machine ∧
      (out = none → o.machine.isRunning = false) := by
  induction fuel generalizing m log with
  | zero => simp [step] at h
  | succ fuel ih =>
    cases hm : m.move with
    | done result m' =>
      have hw := stepWatched_recorded_done hd hm d log
      rcases stop_or_silent result m' with hstop | ⟨rfl, hrun⟩
      · cases (step_of_stop hw hstop fuel).symm.trans h
        obtain rfl : result = .ok out := hr
        refine ⟨[], by simp, rfl, .nil d, ?_, fun hn => hstop (by rw [hn])⟩
        simpa using Converses.done hm (.refl m')
      · rw [step_of_silent hw hrun] at h
        obtain ⟨said, hhost, hfed, hans, hconv, hend⟩ := ih h
        exact ⟨said, hhost, hfed, hans, .done hm hconv, hend⟩
    | await w c next =>
      rcases stepWatched_recorded_await hd hm d log with ⟨e, s', hw⟩ | ⟨v, hv, hw⟩
      · cases (step_of_stop hw (by simp) fuel).symm.trans h
        cases hr
      · have hrun := isRunning_iff.mpr (move_await_accept hm v)
        rw [step_of_silent hw hrun] at h
        obtain ⟨said, hhost, hfed, hans, hconv, hend⟩ := ih h
        refine ⟨.given (.integer v) :: said, by simpa using hhost, hfed, .given hv hans, ?_, hend⟩
        exact .take hm hconv

end Machine

end Intcode
