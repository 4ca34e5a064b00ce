import Intcode.Proofs.Complaints
import Intcode.Proofs.Record
import Intcode.Proofs.Trails

namespace Intcode

namespace Device

variable {δ : Type} (device : Device δ)

theorem feed_journaled (v : Int) (d : δ) (journal : Journal) :
    device.journaled.feed v (d, journal) =
      ((device.feed v d).1, (device.feed v d).2, journal) := rfl

theorem driveFrom_journaled (limit : Option Int) (fuel count : Nat) (m : Machine) (d : δ)
    (journal : Journal) :
    device.driveFrom limit fuel count m d =
      (device.journaled.driveFrom limit fuel count m (d, journal)).map
        (Outcome.mapHost Prod.fst) := by
  induction fuel generalizing count m d journal with
  | zero => rfl
  | succ fuel ih =>
    simp only [driveFrom]
    split
    · rfl
    · have hstep : m.step device.toHost (fuel + 1) d =
          (m.step device.journaled.toHost (fuel + 1) (d, journal)).map (Outcome.mapHost Prod.fst) :=
        Machine.step_extends device.toHost.journaled_extends (fuel + 1) m (d, journal)
      rw [hstep]
      cases m.step device.journaled.toHost (fuel + 1) (d, journal) with
      | none => rfl
      | some o =>
        obtain ⟨result, m', d', journal'⟩ := o
        rcases result with e | _ | v
        · rfl
        · rfl
        · simp only [Option.map_some, Outcome.mapHost, feed_journaled]
          generalize device.feed v d' = fed
          obtain ⟨result, d''⟩ := fed
          cases result with
          | error e => rfl
          | ok => exact ih (count + 1) m' d'' journal'

theorem drive_journaled (fuel : Nat) (limit : Option Int) (m : Machine) (d : δ)
    (journal : Journal) :
    device.drive fuel limit m d =
      (device.journaled.drive fuel limit m (d, journal)).map (Outcome.mapHost Prod.fst) :=
  driveFrom_journaled device limit fuel 0 _ d journal

end Device

namespace CommandLine

/-- What the engine raises in the mode that the options ask for. -/
inductive ModeRaises (fuel : Nat) (o : Options) (cells : List Int) : Error → Prop
  | search {phases : List Int} {e : Error} {journal : Journal} : o.amplifiers = some phases →
      o.search = true →
      Chain.search fuel (if o.feedback then .feedback else .serial) (cells.map .integer)
        (phases.map .integer) = some (.error e, journal) →
      ModeRaises fuel o cells e
  | chain {phases : List Int} {e : Error} : o.amplifiers = some phases → o.search = false →
      Chain.ofPhases (cells.map .integer) (phases.map .integer) = .error e →
      ModeRaises fuel o cells e
  | feedback {phases : List Int} {c c' : Chain} {e : Error} : o.amplifiers = some phases →
      o.search = false → o.feedback = true →
      Chain.ofPhases (cells.map .integer) (phases.map .integer) = .ok c →
      c.runFeedback fuel o.signal = some (.error e, c') → ModeRaises fuel o cells e
  | serial {phases : List Int} {c c' : Chain} {e : Error} : o.amplifiers = some phases →
      o.search = false → o.feedback = false →
      Chain.ofPhases (cells.map .integer) (phases.map .integer) = .ok c →
      c.runSerial fuel o.signal = some (.error e, c') → ModeRaises fuel o cells e
  | patch {e : Error} : o.amplifiers = none →
      Machine.ofPatched cells o.writtenPatches = .error e → ModeRaises fuel o cells e
  | startColor {m : Machine} {e : Error} : o.amplifiers = none → patchedMachine o cells = .ok m →
      o.monitor = false → o.paint = true → Robot.ofStartColor o.startColor = .error e →
      ModeRaises fuel o cells e
  | paint {m m' : Machine} {robot robot' : Robot} {e : Error} : o.amplifiers = none →
      patchedMachine o cells = .ok m → o.monitor = false → o.paint = true →
      Robot.ofStartColor o.startColor = .ok robot →
      Robot.device.drive fuel none m robot = some ⟨.error e, m', robot'⟩ → ModeRaises fuel o cells e
  | arcade {m m' : Machine} {cabinet : Cabinet} {e : Error} : o.amplifiers = none →
      patchedMachine o cells = .ok m → o.monitor = false → o.paint = false → o.arcade = true →
      Cabinet.device.drive fuel none m { freePlay := o.freePlay } = some ⟨.error e, m', cabinet⟩ →
      ModeRaises fuel o cells e
  | batch {m m' : Machine} {left : List Value} {e : Error} : o.amplifiers = none →
      patchedMachine o cells = .ok m → o.monitor = false → o.paint = false → o.arcade = false →
      m.run fuel o.inputs = some ⟨.error e, m', left⟩ → ModeRaises fuel o cells e

theorem ModeRaises.plain {fuel : Nat} {o : Options} {cells : List Int} {e : Error}
    (ho : (∃ n, o.startColor = .integer n) ∨ o.startColor = .emptyList)
    (h : ModeRaises fuel o cells e) : e.Plain := by
  cases h with
  | search _ _ hs => exact Chain.plain_of_searchFrom hs
  | chain _ _ hc => exact Chain.plain_of_ofPhases hc
  | feedback _ _ _ _ hr => exact Chain.plain_of_runFeedback hr
  | serial _ _ _ _ hr => exact Chain.plain_of_runSerial hr
  | patch _ hp => exact Machine.plain_of_applyPatches hp
  | startColor _ _ _ _ hr => exact Robot.plain_of_startColor ho hr
  | paint _ _ _ _ _ hr => exact Device.plain_of_drive Robot.device_civil hr rfl
  | arcade _ _ _ _ _ hr => exact Device.plain_of_drive Cabinet.device_civil hr rfl
  | batch _ _ _ _ _ hr => exact Machine.plain_of_collect hr rfl

/-- The trail may have crashed, but it has no failure that is reported. -/
def Trail.Quiet (t : Trail) : Prop := ∀ f, t.failure = some f → ¬ f.Reported

namespace Trail

theorem quiet_of_none {t : Trail} (h : t.failure = none) : t.Quiet := by
  intro f hf
  rw [h] at hf
  cases hf

theorem Quiet.line {t : Trail} (h : t.Quiet) (r : Except NumeralError String) :
    (t.line r).Quiet := by
  cases r with
  | ok s => exact h
  | error e =>
    intro f hf hreported
    cases hf
    cases hreported

theorem Quiet.andThen {t : Trail} {f : Trail → Trail} (h : t.Quiet) (hf : t.Quiet → (f t).Quiet) :
    (t.andThen f).Quiet := by
  unfold Trail.andThen
  split
  · exact h
  · exact hf h

theorem Quiet.lines {t : Trail} (h : t.Quiet) (lines : List (Except NumeralError String)) :
    (lines.foldl (fun t line => t.andThen (·.line line)) t).Quiet := by
  induction lines generalizing t with
  | nil => exact h
  | cons line lines ih => exact ih (h.andThen fun h => h.line line)

end Trail

/-- A mode has failed with an error that the engine raised, before it printed anything. -/
structure FailsWith (t : Trail) (f : Failure) (e : Error) : Prop where
  failure : f = .machine e
  trail : ∃ journal, t = .fail e journal

theorem FailsWith.of_fail {e : Error} {journal : Journal} {f : Failure}
    (h : (Trail.fail e journal).failure = some f) : FailsWith (.fail e journal) f e :=
  ⟨(Option.some.inj h).symm, journal, rfl⟩

section

variable {fuel : Nat} {o : Options} {cells : List Int} {t : Trail} {f : Failure}

theorem runAmplifiers_fails {phases : List Int} (ho : o.amplifiers = some phases)
    (h : runAmplifiers fuel o cells phases = some t) (ht : t.failure = some f) (hf : f.Reported) :
    ∃ e, FailsWith t f e ∧ ModeRaises fuel o cells e := by
  have hquiet : ∀ journal r, ¬ ((({ journal } : Trail).line r).failure = some f) :=
    fun journal r hl =>
    (Trail.quiet_of_none rfl).line r f hl hf
  unfold runAmplifiers at h
  simp only at h
  split at h
  next hs =>
    obtain ⟨⟨result, journal⟩, hr, rfl⟩ := Option.map_eq_some_iff.mp h
    cases result with
    | error e => exact ⟨e, .of_fail ht, .search ho hs hr⟩
    | ok best => exact absurd ht (hquiet _ _)
  next hs =>
    have hs : o.search = false := by simpa using hs
    split at h
    next e hc =>
      cases h
      exact ⟨e, .of_fail ht, .chain ho hs hc⟩
    next c hc =>
      obtain ⟨⟨result, c'⟩, hr, rfl⟩ := Option.map_eq_some_iff.mp h
      cases result with
      | ok signal => exact absurd ht (hquiet _ _)
      | error e =>
        refine ⟨e, .of_fail ht, ?_⟩
        cases hb : o.feedback with
        | true =>
          rw [hb] at hr
          exact .feedback ho hs hb hc hr
        | false =>
          rw [hb] at hr
          exact .serial ho hs hb hc hr

theorem runDevice_fails {δ : Type} {device : Device δ} {m : Machine} {d : δ}
    {lines : δ → List (Except NumeralError String)} (h : runDevice device fuel m d lines = some t)
    (ht : t.failure = some f) (hf : f.Reported) :
    ∃ e m' d', FailsWith t f e ∧ device.drive fuel none m d = some ⟨.error e, m', d'⟩ := by
  obtain ⟨⟨result, m', d', journal⟩, hr, rfl⟩ := Option.map_eq_some_iff.mp h
  cases result with
  | ok count => exact absurd hf (Trail.Quiet.lines (Trail.quiet_of_none rfl) (lines d') f ht)
  | error e =>
    refine ⟨e, m', d', .of_fail ht, ?_⟩
    rw [device.drive_journaled fuel none m d #[], hr]
    rfl

theorem runBatch_fails {m : Machine} (h : runBatch fuel o m = some t) (ht : t.failure = some f)
    (hf : f.Reported) :
    ∃ e m' left, FailsWith t f e ∧ m.run fuel o.inputs = some ⟨.error e, m', left⟩ := by
  obtain ⟨⟨result, m', left, journal⟩, hr, rfl⟩ := Option.map_eq_some_iff.mp h
  cases result with
  | ok outputs =>
    have hstart : ({ journal } : Trail).Quiet := Trail.quiet_of_none rfl
    have hshown : (if outputs.isEmpty then ({ journal } : Trail)
        else ({ journal } : Trail).line (showOutputs o.ascii outputs)).Quiet := by
      split
      · exact hstart
      · exact hstart.line _
    simp only at ht
    split at ht
    · exact absurd hf ((hshown.andThen fun h => h.line _) f ht)
    · exact absurd hf (hshown f ht)
  | error e =>
    refine ⟨e, m', left, .of_fail ht, ?_⟩
    rw [Machine.run, Machine.collect_journaled fuel m o.inputs #[], hr]
    rfl

theorem patched_fails (h : patchedMachine o cells = .error f) (hf : f.Reported)
    (ho : o.amplifiers = none) : ∃ e, f = .machine e ∧ ModeRaises fuel o cells e := by
  unfold patchedMachine at h
  split at h
  next e hp =>
    cases h
    exact ⟨e, rfl, .patch ho hp⟩
  next =>
    split at h
    · cases h
      cases hf
    · cases h

theorem quiet_conversing (c : Console) (stdin : String) :
    ((Started.conversing c).finish stdin).Quiet := by
  intro f hf hreported
  obtain ⟨breakdown, _, rfl⟩ := Option.map_eq_some_iff.mp hf
  cases breakdown <;> cases hreported

theorem Starts.fails {started : Started} {stdin : String} (h : Starts fuel o cells started)
    (ht : (started.finish stdin).failure = some f) (hf : f.Reported) :
    ∃ e, FailsWith (started.finish stdin) f e ∧ ModeRaises fuel o cells e := by
  cases h with
  | amplifiers ho hr => exact runAmplifiers_fails ho hr ht hf
  | @unpatched g ho hp =>
    obtain rfl : g = f := Option.some.inj ht
    obtain ⟨e, rfl, hr⟩ := patched_fails hp hf ho
    exact ⟨e, ⟨rfl, #[], rfl⟩, hr⟩
  | monitor => exact absurd hf (quiet_conversing _ stdin f ht)
  | paint ho hp hm hpaint hr =>
    unfold runPainting at hr
    split at hr
    next e hs =>
      cases hr
      exact ⟨e, .of_fail ht, .startColor ho hp hm hpaint hs⟩
    next robot hs =>
      obtain ⟨e, m', robot', hfails, hd⟩ := runDevice_fails hr ht hf
      exact ⟨e, hfails, .paint ho hp hm hpaint hs hd⟩
  | arcade ho hp hm hpaint harcade hr =>
    obtain ⟨e, m', cabinet, hfails, hd⟩ := runDevice_fails hr ht hf
    exact ⟨e, hfails, .arcade ho hp hm hpaint harcade hd⟩
  | batch ho hp hm hpaint harcade hr =>
    obtain ⟨e, m', left, hfails, hd⟩ := runBatch_fails hr ht hf
    exact ⟨e, hfails, .batch ho hp hm hpaint harcade hd⟩

theorem runDevice_of_drive {δ : Type} {device : Device δ} {m m' : Machine} {d d' : δ} {e : Error}
    (h : device.drive fuel none m d = some ⟨.error e, m', d'⟩) :
    ∃ journal, ∀ lines, runDevice device fuel m d lines = some (.fail e journal) := by
  rw [device.drive_journaled fuel none m d #[]] at h
  obtain ⟨⟨_, journal⟩, hr, _⟩ := Outcome.exists_of_mapHost h.symm
  refine ⟨journal, fun lines => ?_⟩
  rw [runDevice, hr]
  rfl

theorem ModeRaises.starts {e : Error} (h : ModeRaises fuel o cells e) :
    ∃ journal, Starts fuel o cells (.finished (.fail e journal)) := by
  cases h with
  | @search phases e journal ho hs hr =>
    refine ⟨journal, .amplifiers ho ?_⟩
    simp [runAmplifiers, hs, hr]
  | chain ho hs hc =>
    refine ⟨#[], .amplifiers ho ?_⟩
    simp [runAmplifiers, hs, hc]
  | @feedback phases c c' e ho hs hb hc hr =>
    refine ⟨c'.journal, .amplifiers ho ?_⟩
    simp [runAmplifiers, hs, hc, hb, hr]
  | @serial phases c c' e ho hs hb hc hr =>
    refine ⟨c'.journal, .amplifiers ho ?_⟩
    simp [runAmplifiers, hs, hc, hb, hr]
  | patch ho hp =>
    refine ⟨#[], .unpatched ho ?_⟩
    rw [patchedMachine, hp]
  | startColor ho hp hm hpaint hs =>
    refine ⟨#[], .paint ho hp hm hpaint ?_⟩
    rw [runPainting, hs]
  | paint ho hp hm hpaint hs hr =>
    obtain ⟨journal, hd⟩ := runDevice_of_drive hr
    refine ⟨journal, .paint ho hp hm hpaint ?_⟩
    simp only [runPainting, hs, hd]
  | arcade ho hp hm hpaint harcade hr =>
    obtain ⟨journal, hd⟩ := runDevice_of_drive hr
    exact ⟨journal, .arcade ho hp hm hpaint harcade (hd _)⟩
  | batch ho hp hm hpaint harcade hr =>
    rw [Machine.run, Machine.collect_journaled fuel _ o.inputs #[]] at hr
    obtain ⟨⟨_, journal⟩, hd, _⟩ := Outcome.exists_of_mapHost hr.symm
    refine ⟨journal, .batch ho hp hm hpaint harcade ?_⟩
    rw [runBatch, hd]
    rfl

end

end CommandLine

end Intcode
