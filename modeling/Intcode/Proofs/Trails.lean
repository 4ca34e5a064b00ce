import Intcode.CommandLine.Run

namespace Intcode

namespace CommandLine

/-- The text is empty or ends with a line end. -/
def EndsLine (s : String) : Prop := s = "" ∨ ∃ t, s = t ++ "\n"

theorem endsLine_render (journal : Journal) (least : Level) : EndsLine (journal.render least) := by
  have hfold : ∀ (events : List Event) (s : String), EndsLine s →
      EndsLine (events.foldl (fun s e => s ++ e.line) s) := by
    intro events
    induction events with
    | nil =>
      intro s hs
      exact hs
    | cons e events ih =>
      intro s _
      apply ih
      exact .inr ⟨_, String.append_assoc.symm⟩
  rw [Journal.render, ← Array.foldl_toList]
  exact hfold _ "" (.inl rfl)

namespace Trail

theorem endsLine_line {t : Trail} (h : EndsLine t.stdout) (r : Except NumeralError String) :
    EndsLine (t.line r).stdout := by
  cases r with
  | error e => exact h
  | ok s => exact .inr ⟨_, rfl⟩

theorem line_of_unfailed {t : Trail} {r : Except NumeralError String}
    (h : (t.line r).failure = none) :
    ∃ s, r = .ok s ∧ (t.line r).stdout = t.stdout ++ s ++ "\n" := by
  cases r with
  | error e => cases h
  | ok s => exact ⟨s, rfl, rfl⟩

theorem andThen_of_unfailed {t : Trail} {f : Trail → Trail} (h : (t.andThen f).failure = none) :
    t.andThen f = f t := by
  unfold andThen at h ⊢
  split
  next hf =>
    rw [if_pos hf] at h
    rw [h] at hf
    cases hf
  next => rfl

variable {t : Trail} {level : Level}

theorem toReport_unfailed (h : (t.toReport level).ending = .exit 0) :
    t.failure = none ∧ (t.toReport level).stdout = t.stdout := by
  unfold toReport at h ⊢
  cases hf : t.failure with
  | none => exact ⟨rfl, rfl⟩
  | some f =>
    rw [hf] at h
    simp only at h
    split at h <;> cases h

theorem toReport_reported {f : Failure} {s : String} (ht : t.failure = some f)
    (hs : f.report? = some s) (level : Level) :
    t.toReport level = ⟨.exit 1, t.stdout, t.journal.render level ++ s ++ "\n"⟩ := by
  rw [toReport, ht]
  simp only [hs]

theorem toReport_exit_one (h : (t.toReport level).ending = .exit 1) :
    ∃ f s, t.failure = some f ∧ f.report? = some s := by
  unfold toReport at h
  cases hf : t.failure with
  | none =>
    rw [hf] at h
    cases h
  | some f =>
    rw [hf] at h
    simp only at h
    cases hs : f.report? with
    | none =>
      rw [hs] at h
      cases h
    | some s => exact ⟨f, s, rfl, hs⟩

end Trail

/-- How a mode starts: the amplifiers before all others, and then on the patched machine the
monitor, the painting, the arcade and the batch run. -/
inductive Starts (fuel : Nat) (o : Options) (cells : List Int) : Started → Prop
  | amplifiers {phases : List Int} {t : Trail} : o.amplifiers = some phases →
      runAmplifiers fuel o cells phases = some t → Starts fuel o cells (.finished t)
  | unpatched {f : Failure} : o.amplifiers = none → patchedMachine o cells = .error f →
      Starts fuel o cells (.finished { failure := some f })
  | monitor {m : Machine} : o.amplifiers = none → patchedMachine o cells = .ok m →
      o.monitor = true → Starts fuel o cells (.conversing (startMonitor o m))
  | paint {m : Machine} {t : Trail} : o.amplifiers = none → patchedMachine o cells = .ok m →
      o.monitor = false → o.paint = true → runPainting fuel o m = some t →
      Starts fuel o cells (.finished t)
  | arcade {m : Machine} {t : Trail} : o.amplifiers = none → patchedMachine o cells = .ok m →
      o.monitor = false → o.paint = false → o.arcade = true → runArcade fuel o m = some t →
      Starts fuel o cells (.finished t)
  | batch {m : Machine} {t : Trail} : o.amplifiers = none → patchedMachine o cells = .ok m →
      o.monitor = false → o.paint = false → o.arcade = false → runBatch fuel o m = some t →
      Starts fuel o cells (.finished t)

theorem startMode_iff {fuel : Nat} {o : Options} {cells : List Int} {started : Started} :
    startMode fuel o cells = some started ↔ Starts fuel o cells started := by
  constructor
  · intro h
    unfold startMode at h
    split at h
    next phases ho =>
      obtain ⟨t, hr, rfl⟩ := Option.map_eq_some_iff.mp h
      exact .amplifiers ho hr
    next ho =>
      split at h
      next f hp =>
        cases h
        exact .unpatched ho hp
      next m hp =>
        cases hm : o.monitor with
        | true =>
          rw [hm] at h
          cases h
          exact .monitor ho hp hm
        | false =>
          cases hpaint : o.paint with
          | true =>
            rw [hm, hpaint] at h
            obtain ⟨t, hr, rfl⟩ := Option.map_eq_some_iff.mp h
            exact .paint ho hp hm hpaint hr
          | false =>
            cases harcade : o.arcade with
            | true =>
              rw [hm, hpaint, harcade] at h
              obtain ⟨t, hr, rfl⟩ := Option.map_eq_some_iff.mp h
              exact .arcade ho hp hm hpaint harcade hr
            | false =>
              rw [hm, hpaint, harcade] at h
              obtain ⟨t, hr, rfl⟩ := Option.map_eq_some_iff.mp h
              exact .batch ho hp hm hpaint harcade hr
  · intro h
    cases h with
    | amplifiers ho hr => simp [startMode, ho, hr]
    | unpatched ho hp => simp [startMode, ho, hp]
    | monitor ho hp hm => simp [startMode, ho, hp, hm]
    | paint ho hp hm hpaint hr => simp [startMode, ho, hp, hm, hpaint, hr]
    | arcade ho hp hm hpaint harcade hr => simp [startMode, ho, hp, hm, hpaint, harcade, hr]
    | batch ho hp hm hpaint harcade hr => simp [startMode, ho, hp, hm, hpaint, harcade, hr]

/-- The trail of a mode that has started on a program, behind what is noted of the invocation. -/
def Invocation.trailOf (i : Invocation) (cells : List Int) (started : Started) (stdin : String) :
    Trail :=
  { started.finish stdin with
    journal := i.preamble cells ++ (started.finish stdin).journal }

section

variable {fuel : Nat} {read : String → Except FileError ByteArray} {stdin : String} {i : Invocation}

theorem trail_iff {t : Trail} :
    i.trail fuel read stdin = some t ↔
      (∃ e, ProgramFile.load read i.program = .error e ∧ t = { failure := some (.load e) }) ∨
        ∃ cells started, ProgramFile.load read i.program = .ok cells ∧
          Starts fuel i.options cells started ∧ t = i.trailOf cells started stdin := by
  unfold Invocation.trail
  cases hl : ProgramFile.load read i.program with
  | error e => simp [eq_comm]
  | ok cells =>
    constructor
    · intro h
      obtain ⟨started, hs, rfl⟩ := Option.map_eq_some_iff.mp h
      exact .inr ⟨cells, started, rfl, startMode_iff.mp hs, rfl⟩
    · rintro (⟨e, he, _⟩ | ⟨cells', started, hcells, hs, rfl⟩)
      · cases he
      · cases hcells
        exact Option.map_eq_some_iff.mpr ⟨started, startMode_iff.mpr hs, rfl⟩

theorem run_of_trail {arguments : List String} {t : Trail}
    (hi : Invocation.ofArguments arguments = .ok i) (ht : i.trail fuel read stdin = some t) :
    run fuel read arguments stdin = some (t.toReport (shownLevel i.options)) := by
  rw [run, hi]
  exact congrArg (Option.map _) ht

end

theorem trail_of_exit_one {fuel : Nat} {read : String → Except FileError ByteArray}
    {arguments : List String} {stdin : String} {r : Report}
    (hr : run fuel read arguments stdin = some r) (he : r.ending = .exit 1) :
    ∃ i t f s, Invocation.ofArguments arguments = .ok i ∧ i.trail fuel read stdin = some t ∧
      t.failure = some f ∧ f.report? = some s ∧
      r = ⟨.exit 1, t.stdout, t.journal.render (shownLevel i.options) ++ s ++ "\n"⟩ := by
  unfold run at hr
  split at hr
  next =>
    cases hr
    cases he
  next =>
    cases hr
    cases he
  next i hi =>
    obtain ⟨t, ht, rfl⟩ := Option.map_eq_some_iff.mp hr
    obtain ⟨f, s, hf, hs⟩ := Trail.toReport_exit_one he
    exact ⟨i, t, f, s, hi, ht, hf, hs, Trail.toReport_reported hf hs _⟩

end CommandLine

end Intcode
