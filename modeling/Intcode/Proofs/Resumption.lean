import Intcode.Peripheral.Cabinet
import Intcode.Peripheral.Robot
import Intcode.Proofs.Malformed
import Intcode.Proofs.Tally

namespace Intcode

/-- An outcome that counts so many outputs from before. -/
def Outcome.after {σ : Type} (earlier : Nat) (o : Outcome σ Nat) : Outcome σ Nat :=
  ⟨o.result.map (earlier + ·), o.machine, o.host⟩

namespace Machine

variable {σ : Type} {host : Host σ}

theorem step_executed_le {fuel : Nat} {m : Machine} {s : σ} {o : Outcome σ (Option Int)}
    (h : m.step host fuel s = some o) : m.executed ≤ o.machine.executed := by
  rw [(step_advances h).executed]
  exact Nat.le_add_right _ _

theorem step_executed_lt {fuel : Nat} {m : Machine} {s : σ} {o : Outcome σ (Option Int)} {v : Int}
    (h : m.step host fuel s = some o) (hv : o.result = .ok (some v)) :
    m.executed < o.machine.executed := by
  have hw : ∀ (m : Machine) (s : σ), (m.stepWatched host s).machine.executed =
      m.executed + (m.stepWatched host s).result.isOk.toNat := fun m s =>
    (stepInstruction_counts host m s).1
  refine step_induction (motive := fun m _ o => o.result = .ok (some v) →
    m.executed < o.machine.executed) (fun m s _ hv => ?_) (fun m s o _ _ ih hv => ?_) h hv
  · rw [hw, hv]
    exact Nat.lt_succ_self m.executed
  · have hfirst := hw m s
    have hrest := ih hv
    omega

theorem stepInstruction_started {m : Machine} {s : σ}
    (h : (m.stepInstruction host s).machine.memory.get ≠ m.memory.get) :
    0 < (m.stepInstruction host s).machine.executed := by
  cases hr : (m.stepInstruction host s).result with
  | ok out =>
    rw [(stepInstruction_counts host m s).1, hr]
    exact Nat.succ_pos m.executed
  | error e =>
    have hkept : m.Kept (m.stepInstruction host s).machine := by
      obtain ⟨m', hm, ho⟩ | ⟨w, d, next, hm, ho, _⟩ := stepInstruction_failed hr
      · rw [ho]
        obtain ⟨rfl, _⟩ | ⟨_, hk, _⟩ := move_failed hm
        · exact .refl m'
        · exact hk
      · rw [ho]
        exact (move_awaits hm).1
    exact absurd (congrArg Tape.cell hkept.tape) h

theorem write_twice {m : Machine} (a : Nat) (v : Int) :
    ((m.write a (.integer v)).2.write a (.integer v)).2 = (m.write a (.integer v)).2 := by
  have hwrite (m : Machine) : (m.write a (.integer v)).2 =
      { m with memory := (m.memory.cover a).set a v } :=
    congrArg Prod.snd (m.write_integer (Int.natCast_nonneg a) v)
  have hmemory : (((m.memory.cover a).set a v).cover a).set a v = (m.memory.cover a).set a v := by
    apply Memory.eq_of_size_get
    · simp
    · funext b
      simp only [Memory.get_set, Memory.get_cover, Memory.size_cover, Memory.size_set]
      by_cases h : a = b
      · subst h
        have hcell : a < max m.memory.size (a + 1) := by omega
        simp [hcell]
      · simp [h]
  rw [hwrite, hwrite, hmemory]

end Machine

namespace Device

open Machine

variable {δ : Type} {device : Device δ} {limit : Option Int}

/-- A limit that is reached so many outputs later. -/
def later (a : Nat) (limit : Option Int) : Option Int := limit.map (a + ·)

theorem reached_later (a count : Nat) :
    reached (later a limit) (a + count) = reached limit count := by
  cases limit with
  | none => rfl
  | some n =>
    simp only [later, reached, Option.map_some]
    congr 1
    apply propext
    omega

theorem reached_later_of_lt {a count : Nat} (hl : ∀ n ∈ limit, 0 ≤ n) (h : count < a) :
    reached (later a limit) count = false := by
  cases limit with
  | none => rfl
  | some n =>
    have hn := hl n rfl
    simp only [later, reached, Option.map_some, decide_eq_false_iff_not]
    omega

/-- Outputs from before and a limit further off by as many change nothing but the count. -/
theorem driveFrom_later (a fuel count : Nat) (m : Machine) (d : δ) :
    device.driveFrom (later a limit) fuel (a + count) m d =
      (device.driveFrom limit fuel count m d).map (Outcome.after a) := by
  induction fuel generalizing count m d with
  | zero => rfl
  | succ fuel ih =>
    simp only [driveFrom, reached_later]
    cases reached limit count with
    | true => rfl
    | false =>
      simp only [Bool.false_eq_true, if_false]
      cases m.step device.toHost (fuel + 1) d with
      | none => rfl
      | some o =>
        obtain ⟨result, m₁, d₁⟩ := o
        rcases result with e | _ | v
        · rfl
        · rfl
        · simp only
          rcases device.feed v d₁ with ⟨e | _, d₂⟩
          · rfl
          · exact ih (count + 1) m₁ d₂

theorem driveFrom_next {fuel count : Nat} {m m₁ : Machine} {d d₁ d₂ : δ} {v : Int}
    (hl : reached limit count = false)
    (hs : m.step device.toHost fuel d = some ⟨.ok (some v), m₁, d₁⟩)
    (hf : device.feed v d₁ = (.ok (), d₂)) (o : Outcome δ Nat) :
    (∃ more, device.driveFrom limit more count m d = some o) ↔
      ∃ more, device.driveFrom limit more (count + 1) m₁ d₂ = some o := by
  constructor
  · rintro ⟨more, h⟩
    cases more with
    | zero => simp [driveFrom] at h
    | succ more =>
      rw [driveFrom, if_neg (by simp [hl])] at h
      cases hs' : m.step device.toHost (more + 1) d with
      | none => simp [hs'] at h
      | some o' =>
        have hsame := step_mono hs (Nat.le_max_left fuel (more + 1))
        cases hsame.symm.trans (step_mono hs' (Nat.le_max_right fuel (more + 1)))
        simp only [hs', hf] at h
        exact ⟨more, h⟩
  · rintro ⟨more, h⟩
    refine ⟨max fuel more + 1, ?_⟩
    rw [driveFrom, if_neg (by simp [hl]), step_mono hs (by omega)]
    simp only [hf]
    exact driveFrom_mono h (Nat.le_max_right fuel more)

theorem driveFrom_stopped {a fuel count : Nat} {m m₁ : Machine} {d d₁ : δ}
    (h : device.driveFrom (some a) (fuel + 1) count m d = some ⟨.ok a, m₁, d₁⟩) :
    (count = a ∧ m₁ = m ∧ d₁ = d) ∨ count < a ∧ ∃ v m' d' d₂,
      m.step device.toHost (fuel + 1) d = some ⟨.ok (some v), m', d'⟩ ∧
      device.feed v d' = (.ok (), d₂) ∧
      device.driveFrom (some a) fuel (count + 1) m' d₂ = some ⟨.ok a, m₁, d₁⟩ := by
  rw [driveFrom] at h
  split at h
  next =>
    cases h
    exact .inl ⟨rfl, rfl, rfl⟩
  next hl =>
    have hlt : count < a := by simpa [reached] using hl
    cases hs : m.step device.toHost (fuel + 1) d with
    | none => simp [hs] at h
    | some o =>
      obtain ⟨result, m', d'⟩ := o
      simp only [hs] at h
      rcases result with e | _ | v
      · cases h
      · cases h
        exact absurd hlt (Nat.lt_irrefl _)
      · rcases hf : device.feed v d' with ⟨e | _, d₂⟩
        · simp [hf] at h
        · simp only [hf] at h
          exact .inr ⟨hlt, v, m', d', d₂, rfl, hf, h⟩

/-- What comes of a drive that has not reached its limit comes of the rest of it behind a pause. -/
theorem driveFrom_paused {a fuel count : Nat} {m m₁ : Machine} {d d₁ : δ}
    (hl : ∀ k < a, reached limit k = false)
    (h : device.driveFrom (some a) fuel count m d = some ⟨.ok a, m₁, d₁⟩) (o : Outcome δ Nat) :
    (∃ more, device.driveFrom limit more count m d = some o) ↔
      ∃ more, device.driveFrom limit more a m₁ d₁ = some o := by
  induction fuel generalizing count m d with
  | zero => simp [driveFrom] at h
  | succ fuel ih =>
    rcases driveFrom_stopped h with ⟨rfl, rfl, rfl⟩ | ⟨hlt, v, m', d', d₂, hs, hf, hrest⟩
    · exact Iff.rfl
    · exact (driveFrom_next (hl count hlt) hs hf o).trans (ih hrest)

theorem driveFrom_executed_le {fuel count : Nat} {m : Machine} {d : δ} {o : Outcome δ Nat}
    (h : device.driveFrom limit fuel count m d = some o) : m.executed ≤ o.machine.executed := by
  induction fuel generalizing count m d with
  | zero => simp [driveFrom] at h
  | succ fuel ih =>
    rw [driveFrom] at h
    split at h
    next =>
      cases h
      exact Nat.le_refl _
    next =>
      cases hs : m.step device.toHost (fuel + 1) d with
      | none => simp [hs] at h
      | some o₁ =>
        have hle := step_executed_le hs
        simp only [hs] at h
        split at h
        next =>
          cases h
          exact hle
        next =>
          cases h
          exact hle
        next v _ =>
          split at h
          next =>
            cases h
            exact hle
          next => exact Nat.le_trans hle (ih h)

theorem driveFrom_started {a fuel count : Nat} {m m₁ : Machine} {d d₁ : δ}
    (h : device.driveFrom (some a) fuel count m d = some ⟨.ok a, m₁, d₁⟩) :
    (m₁ = m ∧ d₁ = d) ∨ 0 < m₁.executed := by
  cases fuel with
  | zero => simp [driveFrom] at h
  | succ fuel =>
    rcases driveFrom_stopped h with ⟨_, hm, hd⟩ | ⟨_, v, m', d', d₂, hs, _, hrest⟩
    · exact .inl ⟨hm, hd⟩
    · have hfirst : m.executed < m'.executed := step_executed_lt hs rfl
      have hlater : m'.executed ≤ m₁.executed := driveFrom_executed_le hrest
      exact .inr (by omega)

theorem driveFrom_attach (attach : δ → Machine → Machine) (fuel count : Nat) (m : Machine) (d : δ) :
    Device.driveFrom { device with attach } limit fuel count m d =
      device.driveFrom limit fuel count m d := by
  induction fuel generalizing count m d with
  | zero => rfl
  | succ fuel ih => simp only [driveFrom, ih]

/-- Attaching the device again changes nothing, and attaching it is no instruction. -/
structure AttachesOnce (device : Device δ) : Prop where
  again : ∀ d m, device.attach d (device.attach d m) = device.attach d m
  executed : ∀ d m, (device.attach d m).executed = m.executed

/-- The machine that a drive starts with. -/
def prepared (device : Device δ) (d : δ) (m : Machine) : Machine :=
  if m.executed = 0 then device.attach d m else m

theorem prepared_of_started {m : Machine} (h : 0 < m.executed) (d : δ) : device.prepared d m = m :=
  if_neg (Nat.ne_of_gt h)

theorem AttachesOnce.prepared_again (hd : device.AttachesOnce) (d : δ) (m : Machine) :
    device.prepared d (device.prepared d m) = device.prepared d m := by
  unfold prepared
  by_cases he : m.executed = 0
  · rw [if_pos he, if_pos ((hd.executed d m).trans he), hd.again]
  · rw [if_neg he, if_neg he]

/-- Behind the first drive a second one comes to what a single drive from the start comes to, which
counts the outputs of the first as well. -/
def Continues (device : Device δ) (a : Nat) (m : Machine) (d : δ) (m₁ : Machine) (d₁ : δ) : Prop :=
  ∀ limit : Option Int, (∀ b ∈ limit, 0 ≤ b) → ∀ o,
    (∃ fuel, device.drive fuel (later a limit) m d = some o) ↔
      ∃ o₁, (∃ fuel, device.drive fuel limit m₁ d₁ = some o₁) ∧ o = o₁.after a

theorem AttachesOnce.continues (hd : device.AttachesOnce) {a fuel : Nat} {m m₁ : Machine} {d d₁ : δ}
    (h : device.drive fuel (some a) m d = some ⟨.ok a, m₁, d₁⟩) : device.Continues a m d m₁ d₁ := by
  intro limit hl o
  have hfrom : device.driveFrom (some a) fuel 0 (device.prepared d m) d = some ⟨.ok a, m₁, d₁⟩ := h
  have hstart : device.prepared d₁ m₁ = m₁ := by
    rcases driveFrom_started hfrom with ⟨rfl, rfl⟩ | hpos
    · exact hd.prepared_again d₁ m
    · exact prepared_of_started hpos d₁
  have hsecond (fuel : Nat) : device.drive fuel limit m₁ d₁ = device.driveFrom limit fuel 0 m₁ d₁ :=
    congrArg (fun start => device.driveFrom limit fuel 0 start d₁) hstart
  have hpaused := driveFrom_paused (fun k hk => reached_later_of_lt hl hk) hfrom o
  have hshift (fuel : Nat) : device.driveFrom (later a limit) fuel (a + 0) m₁ d₁ =
      (device.driveFrom limit fuel 0 m₁ d₁).map (Outcome.after a) := driveFrom_later a fuel 0 m₁ d₁
  refine hpaused.trans ?_
  simp only [Nat.add_zero] at hshift
  simp only [hshift, hsecond, Option.map_eq_some_iff]
  constructor
  · rintro ⟨more, o₁, ho, rfl⟩
    exact ⟨o₁, ⟨more, ho⟩, rfl⟩
  · rintro ⟨o₁, ⟨more, ho⟩, rfl⟩
    exact ⟨more, o₁, ho, rfl⟩

end Device

theorem Robot.device_attachesOnce : Robot.device.AttachesOnce := ⟨fun _ _ => rfl, fun _ _ => rfl⟩

theorem Cabinet.device_attachesOnce : Cabinet.device.AttachesOnce := by
  refine ⟨fun c m => ?_, fun c m => ?_⟩
  · simp only [device, insertCoins]
    cases c.freePlay with
    | true => exact Machine.write_twice 0 freeCoins
    | false => rfl
  · simp only [device, insertCoins]
    split
    · rw [Machine.write_eq_memory]
    · rfl

def Cabinet.coinless : Device Cabinet := { Cabinet.device with attach := fun _ m => m }

theorem Cabinet.drive_coinless {m : Machine} (h : 0 < m.executed) (fuel : Nat) (limit : Option Int)
    (c : Cabinet) : device.drive fuel limit m c = coinless.drive fuel limit m c := by
  unfold Device.drive
  rw [if_neg (Nat.ne_of_gt h), if_neg (Nat.ne_of_gt h)]
  have hattach : coinless.driveFrom limit fuel 0 m c = device.driveFrom limit fuel 0 m c :=
    Device.driveFrom_attach _ fuel 0 m c
  exact hattach.symm

namespace Device

open Machine

/-- A drive that returns its limit is continued by the next drive, with a robot and with a cabinet.
Coins are put into a cabinet only before the first instruction, so that no cell that the program has
written is written over. -/
theorem drive_resumes :
    (∀ fuel a m r m₁ r₁, Robot.device.drive fuel (some (a : Nat)) m r = some ⟨.ok a, m₁, r₁⟩ →
      Robot.device.Continues a m r m₁ r₁) ∧
    (∀ fuel a m c m₁ c₁, Cabinet.device.drive fuel (some (a : Nat)) m c = some ⟨.ok a, m₁, c₁⟩ →
      Cabinet.device.Continues a m c m₁ c₁) ∧
    (∀ {σ : Type} (host : Host σ) (m : Machine) (s : σ),
      (m.stepInstruction host s).machine.memory.get ≠ m.memory.get →
        0 < (m.stepInstruction host s).machine.executed) ∧
    ∀ fuel limit m c, 0 < m.executed →
      Cabinet.device.drive fuel limit m c = Cabinet.coinless.drive fuel limit m c ∧
        ∀ o, Cabinet.device.drive fuel limit m c = some o → 0 < o.machine.executed := by
  refine ⟨fun fuel a m r m₁ r₁ h => ?_, fun fuel a m c m₁ c₁ h => ?_, fun host m s h => ?_,
    fun fuel limit m c hpos => ⟨?_, fun o h => ?_⟩⟩
  · exact Robot.device_attachesOnce.continues h
  · exact Cabinet.device_attachesOnce.continues h
  · exact stepInstruction_started h
  · exact Cabinet.drive_coinless hpos fuel limit c
  · have hstart : Cabinet.device.prepared c m = m := prepared_of_started hpos c
    have hle : (Cabinet.device.prepared c m).executed ≤ o.machine.executed :=
      driveFrom_executed_le h
    rw [hstart] at hle
    exact Nat.lt_of_lt_of_le hpos hle

/-- A program that in free play stores 5 where the coins were, is stopped behind a tile, and then
reports that cell as the score. -/
theorem drive_resumes_behind_tile :
    let m :=
      ofCells [1, 21, 21, 22, 1101, 5, 0, 0, 104, 1, 104, 1, 104, 1, 104, -1, 104, 0, 4, 0, 99]
    let c : Cabinet := { freePlay := true }
    ∃ m₁ c₁ m₂ c₂, Cabinet.device.drive 20 (some 3) m c = some ⟨.ok 3, m₁, c₁⟩ ∧
      m₁.memory.get 0 = 5 ∧ 0 < m₁.executed ∧
      Cabinet.device.drive 20 none m₁ c₁ = some ⟨.ok 3, m₂, c₂⟩ ∧
      Cabinet.coinless.drive 20 none m₁ c₁ = some ⟨.ok 3, m₂, c₂⟩ ∧
      (∃ fuel, Cabinet.device.drive fuel none m c = some ⟨.ok 6, m₂, c₂⟩) ∧ c₂.score = 5 := by
  intro m c
  have hfirst : (Cabinet.device.drive 20 (some 3) m c).map (·.result) = some (.ok 3) := by
    decide +kernel
  obtain ⟨⟨result, m₁, c₁⟩, h₁, rfl⟩ := Option.map_eq_some_iff.mp hfirst
  have hcell : (Cabinet.device.drive 20 (some 3) m c).map (fun o =>
      (o.machine.memory.get 0, o.machine.executed)) = some (5, 5) := by
    decide +kernel
  have hsecond : ((Cabinet.device.drive 20 (some 3) m c).bind fun o =>
      Cabinet.device.drive 20 none o.machine o.host).map (fun o => (o.result, o.host.score)) =
        some (.ok 3, 5) := by
    decide +kernel
  rw [h₁] at hcell hsecond
  obtain ⟨hwritten, hexecuted⟩ := Prod.mk.inj (Option.some.inj hcell)
  have hpos : 0 < m₁.executed := by
    rw [hexecuted]
    decide
  obtain ⟨⟨result, m₂, c₂⟩, h₂, hend⟩ := Option.map_eq_some_iff.mp hsecond
  obtain ⟨rfl, hscore⟩ := Prod.mk.inj hend
  have hsingle := (drive_resumes.2.1 20 3 m c m₁ c₁ h₁ none (by simp) _).mpr ⟨_, ⟨20, h₂⟩, rfl⟩
  have hcoinless := (drive_resumes.2.2.2 20 none m₁ c₁ hpos).1.symm.trans h₂
  exact ⟨m₁, c₁, m₂, c₂, h₁, hwritten, hpos, h₂, hcoinless, hsingle, hscore⟩

end Device

end Intcode
