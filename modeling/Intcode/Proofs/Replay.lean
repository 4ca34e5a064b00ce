import Intcode.Peripheral.Cabinet
import Intcode.Peripheral.Robot
import Intcode.Proofs.Dialogue

namespace Intcode

theorem Cabinet.insertCoins_status (c : Cabinet) (m : Machine) :
    (c.insertCoins m).status = m.status := by
  unfold insertCoins
  split
  · exact m.write_status _ _
  · rfl

theorem Robot.device_steady : Robot.device.Steady := ⟨fun _ => rfl, fun _ _ _ => rfl⟩

theorem Cabinet.device_steady : Cabinet.device.Steady := ⟨fun _ => rfl, fun _ _ _ => rfl⟩

namespace Device

open Machine

variable {δ : Type} {device : Device δ}

theorem driveFrom_ok {fuel count k : Nat} {m m' : Machine} {d d' : δ}
    (h : device.driveFrom none (fuel + 1) count m d = some ⟨.ok k, m', d'⟩) :
    ∃ result m₁ d₁, m.step device.toHost (fuel + 1) d = some ⟨result, m₁, d₁⟩ ∧
      (result = .ok none ∧ k = count ∧ m' = m₁ ∧ d' = d₁ ∨
        ∃ v d₂, result = .ok (some v) ∧ device.feed v d₁ = (.ok (), d₂) ∧
          device.driveFrom none fuel (count + 1) m₁ d₂ = some ⟨.ok k, m', d'⟩) := by
  simp only [driveFrom, reached, Bool.false_eq_true, if_false] at h
  cases ho : m.step device.toHost (fuel + 1) d with
  | none => simp [ho] at h
  | some o =>
    obtain ⟨result, m₁, d₁⟩ := o
    simp only [ho] at h
    refine ⟨result, m₁, d₁, rfl, ?_⟩
    rcases result with e | _ | v
    · simp at h
    · cases h
      exact .inl ⟨rfl, rfl, rfl, rfl⟩
    · rcases hf : device.feed v d₁ with ⟨_ | _, d₂⟩
      · simp [hf] at h
      · simp only [hf] at h
        exact .inr ⟨v, d₂, rfl, hf, h⟩

theorem converses_of_driveFrom (hd : device.Steady) {fuel count k : Nat} {m m' : Machine} {d d' : δ}
    (h : device.driveFrom none fuel count m d = some ⟨.ok k, m', d'⟩) (log : Dialogue) :
    ∃ said, device.recorded.driveFrom none fuel count m (d, log) =
        some ⟨.ok k, m', (d', log ++ said)⟩ ∧
      m.Converses said m' ∧ device.Answers d said d' ∧ m'.isRunning = false ∧
      k = count + said.fed.length := by
  induction fuel generalizing count m d log with
  | zero => simp [driveFrom] at h
  | succ fuel ih =>
    obtain ⟨result, m₁, d₁, hstep, hcase⟩ := driveFrom_ok h
    have hstep' : m.step device.toHost (fuel + 1) (d, log).1 = some ⟨result, m₁, d₁⟩ := hstep
    obtain ⟨s₁, hrec, hinner⟩ := step_of_extends device.recorded_extends hstep'
    rcases hcase with ⟨rfl, rfl, rfl, rfl⟩ | ⟨v, d₂, rfl, hf, hrest⟩
    · obtain ⟨said, rfl, hfed, hans, hconv, hend⟩ := converses_of_step hd hrec rfl
      obtain rfl : d = d' := hinner
      refine ⟨said, ?_, by simpa using hconv, hans, hend rfl, by simp [hfed]⟩
      simp [driveFrom, reached, hrec]
    · obtain ⟨said, rfl, hfed, hans, hconv, _⟩ := converses_of_step hd hrec rfl
      obtain rfl : d = d₁ := hinner
      have hfeed : device.recorded.feed v (d, log ++ said) =
          (.ok (), (d₂, log ++ said ++ [.fed v])) := by simp [recorded, hf]
      obtain ⟨more, hdrive, hconv', hans', hend, hk⟩ := ih hrest (log ++ said ++ [.fed v])
      refine ⟨said ++ .fed v :: more, ?_, ?_, hans.trans (.fed hf hans'), hend, ?_⟩
      · simpa [driveFrom, reached, hrec, hfeed] using hdrive
      · simpa using hconv.trans hconv'
      · simp [hk, hfed]
        omega

/-- The dialogue replays the run: the values given make the program emit the values fed, and these
make the device give those. -/
structure Replays (device : Device δ) (m : Machine) (d : δ) (log : Dialogue) (k : Nat)
    (m' : Machine) (d' : δ) : Prop where
  run : ∃ enough, ∀ fuel ≥ enough, m.run fuel log.supplied = some ⟨.ok log.fed, m', []⟩
  count : log.fed.length = k
  fed : feedAll device.feed log.fed d = (.ok (), d')
  given : ∀ j v, log.supplied[j]? = some v → ∃ before after : Dialogue,
    log = before ++ .given v :: after ∧ before.supplied = log.supplied.take j ∧
    (∃ taken m₁ w c next, taken.map .integer = before.supplied ∧ Path m taken before.fed m₁ ∧
      m₁.move = .await w c next) ∧
    ∃ d₁, feedAll device.feed before.fed d = (.ok (), d₁) ∧ (device.take d₁).1 = .ok v

theorem replays_of_converses {m m' : Machine} {d d' : δ} {log : Dialogue}
    (hr : m.status = .running) (hend : m'.isRunning = false) (hconv : m.Converses log m')
    (hans : device.Answers d log d') :
    Replays device m d log log.fed.length m' d' := by
  obtain ⟨taken, ht, hpath⟩ := hconv.path
  have hhalted := (hpath.status hr).resolve_left (isRunning_eq_false.mp hend)
  refine ⟨?_, rfl, hans.feedAll, fun j v hj => ?_⟩
  · obtain ⟨enough, hrun⟩ := run_of_path hpath hr hhalted []
    refine ⟨enough, fun fuel hf => ?_⟩
    have hall := hrun fuel hf
    rwa [List.append_nil, ht] at hall
  · obtain ⟨before, after, rfl, hb⟩ := Dialogue.exists_of_supplied hj
    obtain ⟨m₁, w, c, next, hconv₁, hwait⟩ := hconv.at_given
    obtain ⟨taken₁, ht₁, hpath₁⟩ := hconv₁.path
    obtain ⟨d₁, hans₁, hv⟩ := hans.at_given
    exact ⟨before, after, rfl, hb, ⟨taken₁, m₁, w, c, next, ht₁, hpath₁, hwait⟩, d₁,
      hans₁.feedAll, hv⟩

/-- Every complete run of the machine against the device can be replayed without the device. -/
def Replayable (device : Device δ) (m : Machine) (d : δ) : Prop :=
  ∀ fuel k m' d', device.drive fuel none m d = some ⟨.ok k, m', d'⟩ →
    ∃ log, device.recorded.drive fuel none m (d, []) = some ⟨.ok k, m', (d', log)⟩ ∧
      Replays device (device.attach d m) d log k m' d'

theorem replayable_of_steady (hd : device.Steady) {m : Machine} {d : δ} (he : m.executed = 0)
    (hr : (device.attach d m).status = .running) : Replayable device m d := by
  intro fuel k m' d' h
  unfold drive at h ⊢
  rw [if_pos he] at h ⊢
  obtain ⟨log, hdrive, hconv, hans, hend, hk⟩ := converses_of_driveFrom hd h []
  have hlen : log.fed.length = k := by omega
  refine ⟨log, hdrive, ?_⟩
  rw [← hlen]
  exact replays_of_converses hr hend hconv hans

/-- What a robot or a cabinet drives to its end can be replayed from the values that passed. -/
theorem drive_replays {program : List Value} {m : Machine} (h : Machine.load program = .ok m) :
    (∀ code r, Robot.ofStartColor code = .ok r → Replayable Robot.device m r) ∧
      ∀ freePlay, Replayable Cabinet.device m { freePlay } := by
  obtain ⟨cells, _, rfl⟩ := load_ok h
  constructor
  · intro code r _
    exact replayable_of_steady Robot.device_steady rfl rfl
  · intro freePlay
    exact replayable_of_steady Cabinet.device_steady rfl (Cabinet.insertCoins_status _ _)

/-- A program that shows a ball and a paddle and then asks for the joystick, in free play. -/
theorem drive_replays_free_play :
    let m := ofCells [1, 0, 0, 20, 104, 0, 104, 0, 104, 4, 104, 3, 104, 0, 104, 3, 3, 20, 99]
    let c : Cabinet := { freePlay := true }
    ∃ m' c' log, Cabinet.device.drive 20 none m c = some ⟨.ok 6, m', c'⟩ ∧
      Replays Cabinet.device (Cabinet.device.attach c m) c log 6 m' c' ∧
      log = [.fed 0, .fed 0, .fed 4, .fed 3, .fed 0, .fed 3, .given (.integer (-1))] := by
  intro m c
  have hload : Machine.load ([1, 0, 0, 20, 104, 0, 104, 0, 104, 4, 104, 3, 104, 0, 104, 3, 3, 20,
      99].map .integer) = .ok m := rfl
  have hresult : (Cabinet.device.drive 20 none m c).map (·.result) = some (.ok 6) := by
    decide +kernel
  have hlog : (Cabinet.device.recorded.drive 20 none m (c, [])).map (·.host.2) =
      some [.fed 0, .fed 0, .fed 4, .fed 3, .fed 0, .fed 3, .given (.integer (-1))] := by
    decide +kernel
  obtain ⟨⟨result, m', c'⟩, hdrive, rfl⟩ := Option.map_eq_some_iff.mp hresult
  obtain ⟨log, hrec, hreplays⟩ := (drive_replays hload).2 true 20 6 m' c' hdrive
  refine ⟨m', c', log, hdrive, hreplays, ?_⟩
  rw [hrec] at hlog
  simpa using hlog

end Device

end Intcode
