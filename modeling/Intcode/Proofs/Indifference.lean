import Intcode.Amplifier.Chain
import Intcode.Proofs.Record

namespace Intcode

namespace Amplifier

variable {fuel fuel' : Nat} {a a' : Amplifier} {journal journal' : Journal}
  {result : Except Error (Option Int)}

/-- An amplifier in a chain steps as its machine does alone on the queue. -/
theorem step_iff_alone : (∃ journal', a.step fuel journal = some (result, a', journal')) ↔
    a.machine.step Queue.host fuel a.inbox = some ⟨result, a'.machine, a'.inbox⟩ := by
  constructor
  · rintro ⟨journal', h⟩
    obtain ⟨o, ho, he⟩ := Option.map_eq_some_iff.mp h
    cases he
    have halone :=
      Machine.step_extends Queue.host.journaled_extends fuel a.machine (a.inbox, journal)
    rw [ho] at halone
    exact halone
  · intro h
    have hpart : a.machine.step Queue.host fuel (a.inbox, journal).1 =
        some ⟨result, a'.machine, a'.inbox⟩ := h
    obtain ⟨⟨inbox, journal'⟩, hwide, rfl⟩ :=
      Machine.step_of_extends Queue.host.journaled_extends hpart
    exact ⟨journal', congrArg (Option.map _) hwide⟩

theorem step_again (h : a.step fuel journal = some (result, a', journal')) (hle : fuel ≤ fuel')
    (before : Journal) : ∃ after, a.step fuel' before = some (result, a', after) :=
  step_iff_alone.mpr (Machine.step_mono (step_iff_alone.mp ⟨journal', h⟩) hle)

end Amplifier

namespace Chain

variable {fuel fuel' : Nat} {c c' : Chain}

theorem relay_again {signal : Value} {amplifiers amplifiers' : List Amplifier}
    {journal journal' : Journal} {result : Except Error Int}
    (h : relay fuel signal amplifiers journal = some (result, amplifiers', journal'))
    (hle : fuel ≤ fuel') (before : Journal) :
    ∃ after, relay fuel' signal amplifiers before = some (result, amplifiers', after) := by
  induction amplifiers generalizing signal journal amplifiers' journal' before with
  | nil =>
    cases h
    exact ⟨before, rfl⟩
  | cons a rest ih =>
    rw [relay] at h
    cases hs : (a.inject [signal]).step fuel journal with
    | none => simp [hs] at h
    | some stepped =>
      obtain ⟨given, a', journal₁⟩ := stepped
      obtain ⟨between, hagain⟩ := Amplifier.step_again hs hle before
      rw [relay, hagain]
      simp only [hs] at h
      rcases given with e | _ | v
      · cases h
        exact ⟨between, rfl⟩
      · cases h
        exact ⟨between, rfl⟩
      · cases rest with
        | nil =>
          cases h
          exact ⟨between, rfl⟩
        | cons b rest =>
          obtain ⟨⟨result', rest', journal₂⟩, hrest, he⟩ := Option.map_eq_some_iff.mp h
          cases he
          obtain ⟨after, hlater⟩ := ih hrest between
          exact ⟨after, congrArg (Option.map _) hlater⟩

theorem runSerial_again {signal : Value} {result : Except Error Int}
    (h : c.runSerial fuel signal = some (result, c')) (hle : fuel ≤ fuel') (before : Journal) :
    ∃ after, { c with journal := before }.runSerial fuel' signal =
      some (result, { c' with journal := after }) := by
  obtain ⟨⟨result', amplifiers', journal'⟩, hrelay, he⟩ := Option.map_eq_some_iff.mp h
  cases he
  obtain ⟨after, hagain⟩ := relay_again hrelay hle before
  exact ⟨after, congrArg (Option.map _) hagain⟩

theorem turn_again {index : Nat} {result : Except Error (Option Int)}
    (h : c.turn fuel index = some (result, c')) (hle : fuel ≤ fuel') (before : Journal) :
    ∃ after, { c with journal := before }.turn fuel' index =
      some (result, { c' with journal := after }) := by
  unfold turn at h ⊢
  cases ha : c.amplifiers[index]? with
  | none =>
    simp only [ha] at h ⊢
    cases h
    exact ⟨before, rfl⟩
  | some a =>
    simp only [ha] at h ⊢
    split at h
    next hh =>
      cases h
      exact ⟨before, by rw [if_pos hh]⟩
    next hh =>
      rw [if_neg hh]
      cases hs : a.step fuel c.journal with
      | none => simp [hs] at h
      | some stepped =>
        obtain ⟨given, a', journal₁⟩ := stepped
        obtain ⟨between, hagain⟩ := Amplifier.step_again hs hle before
        rw [hagain]
        simp only [hs] at h
        rcases given with e | _ | v
        · cases h
          exact ⟨between, rfl⟩
        · cases h
          exact ⟨between.push (.amplifierHalted index c.rounds), rfl⟩
        · cases h
          exact ⟨between, rfl⟩

theorem turns_again {schedule : List Nat} {last : Option Int} {result : Except Error (Option Int)}
    (h : c.turns fuel schedule last = some (result, c')) (hle : fuel ≤ fuel') (before : Journal) :
    ∃ after, { c with journal := before }.turns fuel' schedule last =
      some (result, { c' with journal := after }) := by
  induction schedule generalizing last c before with
  | nil =>
    cases h
    exact ⟨before, rfl⟩
  | cons index rest ih =>
    rw [turns] at h
    cases ht : c.turn fuel index with
    | none => simp [ht] at h
    | some stepped =>
      obtain ⟨given, c₁⟩ := stepped
      obtain ⟨between, hagain⟩ := turn_again ht hle before
      rw [turns, hagain]
      simp only [ht] at h
      cases given with
      | error e =>
        cases h
        exact ⟨between, rfl⟩
      | ok out => exact ih h between

theorem roundsFrom_again {last : Option Int} {result : Except Error Int}
    (h : c.roundsFrom fuel last = some (result, c')) (hle : fuel ≤ fuel') (before : Journal) :
    ∃ after, { c with journal := before }.roundsFrom fuel' last =
      some (result, { c' with journal := after }) := by
  induction fuel generalizing fuel' last c before with
  | zero => simp [roundsFrom] at h
  | succ fuel ih =>
    obtain ⟨more, rfl⟩ : ∃ more, fuel' = more + 1 := ⟨fuel' - 1, by omega⟩
    unfold roundsFrom at h ⊢
    split at h
    next hh =>
      have hagain : Chain.allHalted { c with journal := before } = true := hh
      rw [if_pos hagain]
      cases last with
      | none =>
        cases h
        exact ⟨before, rfl⟩
      | some v =>
        cases h
        exact ⟨before, rfl⟩
    next hh =>
      have hactive : ¬ Chain.allHalted { c with journal := before } = true := hh
      rw [if_neg hactive]
      cases ht : c.turns (fuel + 1) (List.range c.size) last with
      | none => simp [ht] at h
      | some stepped =>
        obtain ⟨given, c₁⟩ := stepped
        obtain ⟨between, hagain⟩ := turns_again ht hle before
        have hround : { c with journal := before }.turns (more + 1)
            (List.range (Chain.size { c with journal := before })) last =
              some (given, { c₁ with journal := between }) := hagain
        rw [hround]
        simp only [ht] at h
        cases given with
        | error e =>
          cases h
          exact ⟨between, rfl⟩
        | ok last' => exact ih h (by omega) between

theorem runFeedback_again {signal : Value} {result : Except Error Int}
    (h : c.runFeedback fuel signal = some (result, c')) (hle : fuel ≤ fuel') (before : Journal) :
    ∃ after, { c with journal := before }.runFeedback fuel' signal =
      some (result, { c' with journal := after }) :=
  roundsFrom_again h hle before

end Chain

end Intcode
