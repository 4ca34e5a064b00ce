import Intcode.Proofs.Feedback

namespace Intcode

/-- Each amplifier has emitted at most what it emits in the other case, in the same order. -/
def Emissions.Within (log log' : Emissions) : Prop := ∀ j, log.of j <+: log'.of j

theorem Emissions.Within.antisymm {log log' : Emissions} (h : log.Within log')
    (h' : log'.Within log) (j : Nat) : log.of j = log'.of j :=
  (h j).eq_of_length_le (h' j).length_le

namespace Chain

section

variable {c cA cB : Chain} {logA logB : Emissions}

/-- What a machine has taken it also had at its end in the other case, so that a turn emits nothing
that is not emitted there. -/
theorem turn_within (hA : Flow c logA cA) (hB : Flow c logB cB) (hh : cB.allHalted = true)
    (hw : logA.Within logB) {fuel index : Nat} {out : Option Int} {cA' : Chain}
    (ht : cA.turn fuel index = some (.ok out, cA')) :
    (logA ++ .single index out).Within logB := by
  intro j
  rcases turn_ok ht with ⟨_, rfl⟩ | ⟨a, a', taken, ha, hp, htaken, _⟩
  · simpa [Emissions.single] using hw j
  · by_cases hj : index = j
    · subst hj
      obtain ⟨a₀, takenA, ha₀, hpA, htA⟩ := hA.amplifier index a ha
      obtain ⟨b, hb⟩ : ∃ b, cB.amplifiers[index]? = some b :=
        getElem?_of_lt (hB.size.symm ▸ getElem?_lt ha₀)
      obtain ⟨b₀, takenB, hb₀, hpB, htB⟩ := hB.amplifier index b hb
      cases ha₀.symm.trans hb₀
      have hreach : logA.reaching c.size index <+: logB.reaching c.size index := hw _
      rw [Emissions.of_append, Emissions.of_single_self]
      have hbefore : (takenA ++ taken).map .integer <+:
          a₀.inbox.pending ++ (logA.reaching c.size index).map .integer := by
        rw [htA, htaken, List.map_append, ← List.append_assoc]
        exact List.prefix_append _ _
      have hlater : a₀.inbox.pending ++ (logA.reaching c.size index).map .integer <+:
          a₀.inbox.pending ++ (logB.reaching c.size index).map Value.integer :=
        (List.prefix_append_right_inj _).mpr (hreach.map _)
      exact (hpA.trans hp).prefix_of_stopped hpB (hbefore.trans hlater) ⟨b.inbox.pending, htB.symm⟩
        (stopped_of_allHalted hh hb)
    · simpa [Emissions.of_single_ne hj] using hw j

theorem turns_within (hA : Flow c logA cA) (hB : Flow c logB cB) (hh : cB.allHalted = true)
    (hw : logA.Within logB) {fuel : Nat} {schedule : List Nat} {last last' : Option Int}
    {cA' : Chain} (ht : cA.turns fuel schedule last = some (.ok last', cA')) :
    (logA ++ cA.emissions fuel schedule).Within logB := by
  induction schedule generalizing last cA logA with
  | nil => simpa [emissions] using hw
  | cons index rest ih =>
    obtain ⟨out, c₁, hturn, hrest, he⟩ := turns_cons ht
    rw [he, ← List.append_assoc]
    exact ih (hA.trans (flow_of_turn hturn)) (turn_within hA hB hh hw hturn) hrest

theorem rounds_within (hA : Flow c logA cA) (hB : Flow c logB cB) (hh : cB.allHalted = true)
    (hw : logA.Within logB) {fuel : Nat} {last : Option Int} {cA' : Chain} {r : Int}
    (hr : cA.roundsFrom fuel last = some (.ok r, cA')) :
    (logA ++ cA.roundEmissions fuel last).Within logB := by
  induction fuel generalizing last cA logA with
  | zero => simp [roundsFrom] at hr
  | succ fuel ih =>
    rcases roundsFrom_ok hr with ⟨_, _, rfl, he⟩ | ⟨last', c₁, ht, hrest, he⟩
    · simpa [he] using hw
    · have hround : Flow c₁ [] { c₁ with rounds := c₁.rounds + 1 } := Flow.of_eq rfl
      have hflow := (hA.trans (flow_of_turns ht)).trans hround
      rw [List.append_nil] at hflow
      rw [he, ← List.append_assoc]
      exact ih hflow (turns_within hA hB hh hw ht) hrest

theorem Flow.eq_of_halted (hA : Flow c logA cA) (hB : Flow c logB cB) (hhA : cA.allHalted = true)
    (hhB : cB.allHalted = true) (he : ∀ j, logA.of j = logB.of j) :
    cA.amplifiers = cB.amplifiers := by
  refine List.ext_getElem? fun j => ?_
  by_cases hj : j < c.size
  · obtain ⟨a, ha⟩ := getElem?_of_lt (hA.size.symm ▸ hj)
    obtain ⟨b, hb⟩ := getElem?_of_lt (hB.size.symm ▸ hj)
    obtain ⟨a₀, takenA, ha₀, hpA, htA⟩ := hA.amplifier j a ha
    obtain ⟨b₀, takenB, hb₀, hpB, htB⟩ := hB.amplifier j b hb
    cases ha₀.symm.trans hb₀
    have hreach : logA.reaching c.size j = logB.reaching c.size j := he _
    rw [hreach] at htA
    obtain ⟨rfl, _, hm⟩ := hpA.unique_of_stopped hpB ⟨_, htA.symm⟩ ⟨_, htB.symm⟩
      (stopped_of_allHalted hhA ha) (stopped_of_allHalted hhB hb)
    have hq := List.append_cancel_left (htA.symm.trans htB)
    obtain ⟨machineA, ⟨pendingA⟩⟩ := a
    obtain ⟨machineB, ⟨pendingB⟩⟩ := b
    simp only at hm hq
    rw [ha, hb, hm, hq]
  · have hjA : ¬ j < cA.size := hA.size.symm ▸ hj
    have hjB : ¬ j < cB.size := hB.size.symm ▸ hj
    rw [List.getElem?_eq_none (Nat.not_lt.mp hjA), List.getElem?_eq_none (Nat.not_lt.mp hjB)]

/-- The order of the turns does not matter: turns that bring all amplifiers to their end give each
amplifier the outputs, the machine and the queue of the run round by round, and its result. -/
theorem feedback_any_schedule {program : List Value} {phases : List Int} {signal r : Int}
    {fuel fuel' : Nat} {schedule : List Nat} {last : Option Int} {c c₁ c₂ : Chain}
    (hc : ofPhases program (phases.map .integer) = .ok c)
    (h₁ : (c.inject 0 [.integer signal]).turns fuel' schedule none = some (.ok last, c₁))
    (hh : c₁.allHalted = true)
    (h₂ : c.runFeedback fuel (.integer signal) = some (.ok r, c₂)) :
    (∀ j, ((c.inject 0 [.integer signal]).emissions fuel' schedule).of j =
      (c.feedbackEmissions fuel (.integer signal)).of j) ∧
    c₁.amplifiers = c₂.amplifiers ∧
    (((c.inject 0 [.integer signal]).emissions fuel' schedule).of (phases.length - 1)).getLast? =
      some r ∧
    last = some r := by
  obtain ⟨m, _, hsize, hpos, _⟩ := ofPhases_start hc signal
  have hA := flow_of_turns h₁
  obtain ⟨hB, hhB⟩ := flow_of_feedback h₂
  have hnil : ∀ log, Emissions.Within [] log := fun log j => List.nil_prefix
  have hAB := turns_within (Flow.of_eq rfl) hB hhB (hnil _) h₁
  have hBA := rounds_within (Flow.of_eq rfl) hA hh (hnil _) h₂
  have he := Emissions.Within.antisymm hAB hBA
  have hr := rounds_last (hsize ▸ hpos) h₂
  have hl := turns_last (hsize ▸ hpos) h₁
  rw [hsize, Option.or_none] at hr hl
  have hlast := (congrArg List.getLast? (he (phases.length - 1))).trans hr
  exact ⟨he, hA.eq_of_halted hB hh hhB he, hlast, hl.trans hlast⟩

end

theorem feedback_any_schedule_addTwice :
    ∃ c c₁ c₂, ofPhases addTwice ([2, 3].map .integer) = .ok c ∧
      (c.inject 0 [.integer 1]).turns 20 [0, 1, 0, 0, 1, 1] none = some (.ok (some 11), c₁) ∧
      c₁.allHalted = true ∧ c.runFeedback 20 (.integer 1) = some (.ok 11, c₂) ∧
      c₁.amplifiers = c₂.amplifiers := by
  obtain ⟨c, hc⟩ : ∃ c, ofPhases addTwice ([2, 3].map .integer) = .ok c := ⟨_, rfl⟩
  have hturns : ((c.inject 0 [.integer 1]).turns 20 [0, 1, 0, 0, 1, 1] none).map
      (fun after => (after.1, after.2.allHalted)) = some (.ok (some 11), true) := by
    cases hc
    decide +kernel
  have hrun : (c.runFeedback 20 (.integer 1)).map (·.1) = some (.ok 11) := by
    cases hc
    decide +kernel
  obtain ⟨⟨last, c₁⟩, h₁, he₁⟩ := Option.map_eq_some_iff.mp hturns
  obtain ⟨rfl, hh⟩ : last = .ok (some 11) ∧ c₁.allHalted = true := by simpa using he₁
  obtain ⟨⟨r, c₂⟩, h₂, he₂⟩ := Option.map_eq_some_iff.mp hrun
  cases he₂
  exact ⟨c, c₁, c₂, hc, h₁, hh, h₂, (feedback_any_schedule hc h₁ hh h₂).2.1⟩

end Chain

end Intcode
