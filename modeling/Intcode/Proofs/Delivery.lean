import Intcode.Proofs.Progress

namespace Intcode

namespace Machine

/-- What a step to the next output comes to when the moves go on with the values that are left. -/
def resume (result : Except Error (Option Int)) (n : Nat) (m : Machine) (values : List Value) :
    Progress :=
  match result with
  | .ok (some v) => (m.feed n values).after [v]
  | .ok none => .ended (.ok ()) m values
  | .error (.inputExhausted _) => m.feed n values
  | .error e => .ended (.error e) m values

theorem resume_error {e : Error} (he : ∀ why, e ≠ .inputExhausted why) (n : Nat) (m : Machine)
    (values : List Value) : m.resume (.error e) n values = .ended (.error e) m values := by
  cases e
  case inputExhausted why => exact absurd rfl (he why)
  all_goals rfl

theorem toCell_error_ne {value : Value} {e : Error} (h : value.toCell = .error e)
    (why : Exhaustion) : e ≠ .inputExhausted why := by
  rw [Value.toCell_error h]
  nofun

theorem feed_await {m w : Machine} {d : Nat} {next : Int} (hm : m.move = .await w d next) (n : Nat)
    (values : List Value) : m.feed n values = w.feed n values := by
  cases n with
  | zero => rfl
  | succ n => simp only [feed, hm, move_await_again hm]

theorem Steps.feed {why : Exhaustion} {m m' : Machine} {values left : List Value}
    {result : Except Error (Option Int)} (h : Steps why m values result m' left)
    (more : List Value) :
    ∃ k, ∀ n, m.feed (n + k) (values ++ more) = m'.resume result n (left ++ more) := by
  induction h with
  | @stop m m' result values hm hstop =>
    refine ⟨1, fun n => ?_⟩
    cases result with
    | error e =>
      rw [resume_error (move_error hm)]
      simp [Machine.feed, hm]
    | ok out =>
      cases out with
      | none => simp [Machine.feed, hm, resume, hstop rfl]
      | some v => simp [Machine.feed, hm, resume, move_output hm]
  | silent hm hr _ ih =>
    obtain ⟨k, hk⟩ := ih
    refine ⟨k + 1, fun n => ?_⟩
    rw [← hk n, ← Nat.add_assoc]
    simp [Machine.feed, hm, hr]
  | starved hm => exact ⟨0, fun n => feed_await hm n _⟩
  | @refused m w d next value rest e hm hv =>
    refine ⟨1, fun n => ?_⟩
    rw [resume_error (toCell_error_ne hv)]
    simp [Machine.feed, hm, hv]
  | served hm _ ih =>
    obtain ⟨k, hk⟩ := ih
    refine ⟨k + 1, fun n => ?_⟩
    rw [← hk n, ← Nat.add_assoc]
    simp [Machine.feed, hm, Value.toCell]

theorem Steps.waiting {why why' : Exhaustion} {m m' : Machine} {values left : List Value}
    (h : Steps why m values (.error (.inputExhausted why')) m' left) :
    why' = why ∧ left = [] ∧ ∃ d next, m'.move = .await m' d next := by
  generalize hr : Except.error (Error.inputExhausted why') = result at h
  induction h with
  | stop hm _ =>
    subst hr
    exact absurd rfl (move_error hm why')
  | silent _ _ _ ih => exact ih hr
  | @starved m w d next hm =>
    cases hr
    exact ⟨rfl, rfl, d, next, move_await_again hm⟩
  | refused _ hv =>
    cases hr
    exact absurd rfl (toCell_error_ne hv why')
  | served _ _ ih => exact ih hr

section

variable {fuel : Nat} {chunks : List (List Value)} {m : Machine} {q : Queue}
  {o : Outcome Queue (Option Int)}

theorem deliver_of_output {v : Int} (ho : m.step Queue.host (fuel + 1) q = some o)
    (hr : o.result = .ok (some v)) :
    m.deliver (fuel + 1) chunks q = (o.machine.deliver fuel chunks o.host).after [v] := by
  simp [deliver, ho, hr]

theorem deliver_of_halt (ho : m.step Queue.host (fuel + 1) q = some o)
    (hr : o.result = .ok none) :
    m.deliver (fuel + 1) chunks q =
      .ended (.ok ()) o.machine (o.host.pending ++ chunks.flatten) := by
  simp [deliver, ho, hr]

theorem deliver_of_error {e : Error} (he : ∀ why, e ≠ .inputExhausted why)
    (ho : m.step Queue.host (fuel + 1) q = some o) (hr : o.result = .error e) :
    m.deliver (fuel + 1) chunks q =
      .ended (.error e) o.machine (o.host.pending ++ chunks.flatten) := by
  cases e
  case inputExhausted why => exact absurd rfl (he why)
  all_goals simp [deliver, ho, hr]

theorem deliver_of_missing {why : Exhaustion} {chunk : List Value}
    (ho : m.step Queue.host (fuel + 1) q = some o) (hr : o.result = .error (.inputExhausted why)) :
    m.deliver (fuel + 1) (chunk :: chunks) q =
      o.machine.deliver fuel chunks (o.host.inject chunk) := by
  simp [deliver, ho, hr]

theorem deliver_of_exhausted {why : Exhaustion} (ho : m.step Queue.host (fuel + 1) q = some o)
    (hr : o.result = .error (.inputExhausted why)) :
    m.deliver (fuel + 1) [] q =
      .ended (.error (.inputExhausted why)) o.machine o.host.pending := by
  simp [deliver, ho, hr]

end

theorem deliver_le_feed (fuel : Nat) (chunks : List (List Value)) (m : Machine) (q : Queue) :
    ∃ n, m.deliver fuel chunks q ≤ m.feed n (q.pending ++ chunks.flatten) := by
  induction fuel generalizing chunks m q with
  | zero => exact ⟨0, le_rfl⟩
  | succ fuel ih =>
    cases ho : m.step Queue.host (fuel + 1) q with
    | none => exact ⟨0, by simpa [deliver, ho] using Progress.start_le _⟩
    | some o =>
      have hs := steps_of_step Queue.host_serves ho
      obtain ⟨k, hk⟩ := hs.feed chunks.flatten
      rcases hr : o.result with e | _ | v
      · by_cases he : ∃ why, e = .inputExhausted why
        · obtain ⟨why, rfl⟩ := he
          cases chunks with
          | nil =>
            obtain ⟨rfl, hp, d, next, hm⟩ := (hr ▸ hs).waiting
            refine ⟨1 + k, le_of_eq ?_⟩
            rw [deliver_of_exhausted ho hr, hk 1, hr, hp]
            simp [resume, Machine.feed, hm]
          | cons chunk chunks =>
            obtain ⟨n, hn⟩ := ih chunks o.machine (o.host.inject chunk)
            refine ⟨n + k, ?_⟩
            rw [deliver_of_missing ho hr, hk n, hr]
            simpa [resume] using hn
        · have he' : ∀ why, e ≠ .inputExhausted why := fun why hw => he ⟨why, hw⟩
          refine ⟨0 + k, le_of_eq ?_⟩
          rw [deliver_of_error he' ho hr, hk 0, hr, resume_error he']
      · refine ⟨0 + k, le_of_eq ?_⟩
        rw [deliver_of_halt ho hr, hk 0, hr]
        rfl
      · obtain ⟨n, hn⟩ := ih chunks o.machine o.host
        refine ⟨n + k, ?_⟩
        rw [deliver_of_output ho hr, hk n, hr]
        exact Progress.after_le hn [v]

theorem deliver_silent_le {m m' : Machine} {q q' : Queue}
    (hw : m.stepWatched Queue.host q = ⟨.ok none, m', q'⟩) (hr : m'.isRunning = true) (fuel : Nat)
    (chunks : List (List Value)) : m'.deliver fuel chunks q' ≤ m.deliver (fuel + 1) chunks q := by
  refine deliver_le chunks (fun o ho => ?_) (Nat.le_succ fuel)
  rw [step_of_silent hw hr]
  exact ho

theorem feed_le_deliver_served {n : Nat}
    (ih : ∀ (m : Machine) (q : Queue) (chunks : List (List Value)),
      ∃ fuel, m.feed n (q.pending ++ chunks.flatten) ≤ m.deliver fuel chunks q)
    {m w : Machine} {d : Nat} {next : Int} (hm : m.move = .await w d next) {q : Queue}
    {value : Value} {rest : List Value} (hp : q.pending = value :: rest)
    (chunks : List (List Value)) :
    ∃ fuel, m.feed (n + 1) (q.pending ++ chunks.flatten) ≤ m.deliver fuel chunks q := by
  obtain ⟨q', rfl, hw⟩ := stepWatched_served Queue.host_serves hm hp
  cases hv : value.toCell with
  | error e =>
    simp only [hv] at hw
    refine ⟨0 + 1, le_of_eq ?_⟩
    rw [deliver_of_error (toCell_error_ne hv) (step_of_stop hw (by simp) 0) rfl, hp]
    simp [Machine.feed, hm, hv]
  | ok v =>
    simp only [hv] at hw
    obtain ⟨fuel, hf⟩ := ih (w.accept d v next) q' chunks
    refine ⟨fuel + 1, le_trans ?_
      (deliver_silent_le hw (isRunning_iff.mpr (move_await_accept hm v)) fuel chunks)⟩
    rw [hp]
    simpa [Machine.feed, hm, hv] using hf

/-- Chunks are put in until one has a value; the machine waits all the while as it did. -/
theorem feed_le_deliver_await {n : Nat}
    (ih : ∀ (m : Machine) (q : Queue) (chunks : List (List Value)),
      ∃ fuel, m.feed n (q.pending ++ chunks.flatten) ≤ m.deliver fuel chunks q)
    {m w : Machine} {d : Nat} {next : Int} (hm : m.move = .await w d next) (q : Queue)
    (chunks : List (List Value)) :
    ∃ fuel, m.feed (n + 1) (q.pending ++ chunks.flatten) ≤ m.deliver fuel chunks q := by
  induction chunks generalizing m q with
  | nil =>
    cases hp : q.pending with
    | cons value rest => exact hp ▸ feed_le_deliver_served ih hm hp []
    | nil =>
      obtain ⟨q', hw, hp'⟩ := stepWatched_starved Queue.host_serves hm hp
      refine ⟨0 + 1, le_of_eq ?_⟩
      rw [deliver_of_exhausted (step_of_stop hw (by simp) 0) rfl, hp']
      simp [Machine.feed, hm]
  | cons chunk chunks ihc =>
    cases hp : q.pending with
    | cons value rest => exact hp ▸ feed_le_deliver_served ih hm hp (chunk :: chunks)
    | nil =>
      obtain ⟨q', hw, hp'⟩ := stepWatched_starved Queue.host_serves hm hp
      obtain ⟨fuel, hf⟩ := ihc (move_await_again hm) (q'.inject chunk)
      refine ⟨fuel + 1, ?_⟩
      rw [deliver_of_missing (step_of_stop hw (by simp) fuel) rfl, feed_await hm]
      simpa [hp'] using hf

theorem feed_le_deliver (n : Nat) (m : Machine) (q : Queue) (chunks : List (List Value)) :
    ∃ fuel, m.feed n (q.pending ++ chunks.flatten) ≤ m.deliver fuel chunks q := by
  induction n generalizing m q chunks with
  | zero => exact ⟨0, le_rfl⟩
  | succ n ih =>
    cases hm : m.move with
    | await w d next => exact feed_le_deliver_await ih hm q chunks
    | done result m' =>
      obtain ⟨q', hw, hp⟩ := stepWatched_done Queue.host_serves hm q
      rw [← hp]
      rcases stop_or_silent result m' with hstop | ⟨rfl, hr⟩
      · have ho := step_of_stop hw hstop
        rcases result with e | _ | v
        · refine ⟨0 + 1, le_of_eq ?_⟩
          rw [deliver_of_error (move_error hm) (ho 0) rfl]
          simp [feed, hm]
        · refine ⟨0 + 1, le_of_eq ?_⟩
          rw [deliver_of_halt (ho 0) rfl]
          simp [feed, hm, hstop rfl]
        · obtain ⟨fuel, hf⟩ := ih m' q' chunks
          refine ⟨fuel + 1, ?_⟩
          rw [deliver_of_output (ho fuel) rfl]
          simpa [feed, hm, move_output hm] using Progress.after_le hf [v]
      · obtain ⟨fuel, hf⟩ := ih m' q' chunks
        refine ⟨fuel + 1, le_trans ?_ (deliver_silent_le hw hr fuel chunks)⟩
        simpa [feed, hm, hr] using hf

/-- However the inputs are cut into chunks, with enough fuel the run has come at least as far as any
run on the same inputs cut otherwise. -/
theorem deliver_le_deliver {q q' : Queue} {chunks chunks' : List (List Value)}
    (h : q.pending ++ chunks.flatten = q'.pending ++ chunks'.flatten) (m : Machine) (fuel : Nat) :
    ∃ enough, ∀ fuel' ≥ enough, m.deliver fuel chunks q ≤ m.deliver fuel' chunks' q' := by
  obtain ⟨n, hn⟩ := deliver_le_feed fuel chunks m q
  obtain ⟨enough, he⟩ := feed_le_deliver n m q' chunks'
  refine ⟨enough, fun fuel' hf => ?_⟩
  calc m.deliver fuel chunks q
    _ ≤ m.feed n (q.pending ++ chunks.flatten) := hn
    _ ≤ m.deliver enough chunks' q' := h ▸ he
    _ ≤ m.deliver fuel' chunks' q' := deliver_mono hf chunks' m q'

theorem deliver_more (m : Machine) (q : Queue) (values more : List Value) (fuel : Nat) :
    ∃ enough, ∀ fuel' ≥ enough,
      (m.deliver fuel [] (q.inject values)).outputs <+:
        (m.deliver fuel' [] (q.inject (values ++ more))).outputs ∧
      ((m.deliver fuel [] (q.inject values)).Settled →
        m.deliver fuel' [] (q.inject (values ++ more)) =
          (m.deliver fuel [] (q.inject values)).leaving more) := by
  obtain ⟨n, hn⟩ := deliver_le_feed fuel [] m (q.inject values)
  obtain ⟨hp, hl⟩ := feed_append n m ((q.inject values).pending ++ [].flatten) more
  obtain ⟨enough, he⟩ := feed_le_deliver n m (q.inject (values ++ more)) []
  have hq : (q.inject values).pending ++ [].flatten ++ more =
      (q.inject (values ++ more)).pending ++ [].flatten := by simp
  rw [hq] at hp hl
  refine ⟨enough, fun fuel' hf => ?_⟩
  have hle := le_trans he (deliver_mono hf [] m (q.inject (values ++ more)))
  refine ⟨(hn.outputs.trans hp).trans hle.outputs, fun hs => ?_⟩
  have hfeed := hs.eq_of_le hn
  rw [hfeed] at hl
  rw [hl hs] at hle
  exact (hs.leaving more).eq_of_le hle

/-- Late delivery of the inputs has no effect: with enough fuel the run on chunks and the run that
has all inputs from the start come to the same, and inputs behind those of a settled run stay
unread. -/
theorem deliver_late_agrees (m : Machine) (q : Queue) (chunks : List (List Value))
    (more : List Value) (fuel : Nat) :
    ∃ enough, ∀ fuel' ≥ enough,
      m.deliver fuel chunks q ≤ m.deliver fuel' [] (q.inject chunks.flatten) ∧
      m.deliver fuel [] (q.inject chunks.flatten) ≤ m.deliver fuel' chunks q ∧
      (m.deliver fuel [] (q.inject chunks.flatten)).outputs <+:
        (m.deliver fuel' [] (q.inject (chunks.flatten ++ more))).outputs ∧
      ((m.deliver fuel [] (q.inject chunks.flatten)).Settled →
        m.deliver fuel' [] (q.inject (chunks.flatten ++ more)) =
          (m.deliver fuel [] (q.inject chunks.flatten)).leaving more) := by
  have hq : q.pending ++ chunks.flatten = (q.inject chunks.flatten).pending ++ [].flatten := by simp
  obtain ⟨early, he⟩ := deliver_le_deliver hq m fuel
  obtain ⟨late, hl⟩ := deliver_le_deliver hq.symm m fuel
  obtain ⟨further, hf⟩ := deliver_more m q chunks.flatten more fuel
  refine ⟨max early (max late further), fun fuel' hfuel => ⟨he fuel' ?_, hl fuel' ?_, hf fuel' ?_⟩⟩
  · omega
  · omega
  · omega

example : ((Machine.ofCells [3, 0, 4, 0, 3, 0, 4, 0, 99]).deliver 9
    [[], [.integer 5], [], [.integer 7, .integer 8]] ⟨[]⟩).outputs = [5, 7] := by decide

end Machine

end Intcode
