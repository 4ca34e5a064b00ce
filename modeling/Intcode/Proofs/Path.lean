import Intcode.Proofs.Move
import Mathlib.Data.List.Basic

namespace Intcode

namespace Machine

/-- The machine completes instructions in a row, taking and emitting these values in order. -/
inductive Path : Machine → List Int → List Int → Machine → Prop
  | refl (m : Machine) : Path m [] [] m
  | done {m m' m'' : Machine} {out : Option Int} {taken emitted : List Int} :
      m.move = .done (.ok out) m' → Path m' taken emitted m'' →
      Path m taken (out.toList ++ emitted) m''
  | take {m w m'' : Machine} {d : Nat} {next v : Int} {taken emitted : List Int} :
      m.move = .await w d next → Path (w.accept d v next) taken emitted m'' →
      Path m (v :: taken) emitted m''

theorem Path.trans {m m' m'' : Machine} {t t' o o' : List Int} (h : Path m t o m')
    (h' : Path m' t' o' m'') : Path m (t ++ t') (o ++ o') m'' := by
  induction h with
  | refl => exact h'
  | done hm _ ih =>
    rw [List.append_assoc]
    exact .done hm (ih h')
  | take hm _ ih => exact .take hm (ih h')

theorem Path.of_stopped {m m' : Machine} {t o : List Int} (h : Path m t o m')
    (hs : m.status ≠ .running) : t = [] ∧ o = [] ∧ m' = m := by
  cases h with
  | refl => exact ⟨rfl, rfl, rfl⟩
  | done hm _ => exact absurd (move_ok hm).1 hs
  | take hm _ => exact absurd (move_eq_await.mp hm).1 hs

theorem Path.status {m m' : Machine} {t o : List Int} (h : Path m t o m')
    (hs : m.status = .running) : m'.status = .running ∨ m'.status = .halted := by
  induction h with
  | refl => exact .inl hs
  | @done m m₁ m' out taken emitted hm hp ih =>
    rcases (move_ok hm).2 with hr | ⟨hh, _⟩
    · exact ih hr
    · obtain ⟨_, _, rfl⟩ := hp.of_stopped (by simp [hh])
      exact .inr hh
  | @take m w m' d next v taken emitted hm _ ih =>
    exact ih (move_await_accept hm v)

/-- Of two paths on the same inputs one extends the other. -/
theorem Path.comparable {m m₁ m₂ : Machine} {t₁ t₂ o₁ o₂ : List Int}
    {inputs : List Value} (h₁ : Path m t₁ o₁ m₁) (h₂ : Path m t₂ o₂ m₂)
    (hi₁ : t₁.map .integer <+: inputs) (hi₂ : t₂.map .integer <+: inputs) :
    (∃ t o, Path m₁ t o m₂ ∧ t₂ = t₁ ++ t ∧ o₂ = o₁ ++ o) ∨
      ∃ t o, Path m₂ t o m₁ ∧ t₁ = t₂ ++ t ∧ o₁ = o₂ ++ o := by
  induction h₁ generalizing t₂ o₂ inputs with
  | refl => exact .inl ⟨t₂, o₂, h₂, rfl, rfl⟩
  | @done m m' m₁ out taken emitted hm hp ih =>
    cases h₂ with
    | refl => exact .inr ⟨taken, out.toList ++ emitted, .done hm hp, rfl, rfl⟩
    | done hm' hp' =>
      cases hm.symm.trans hm'
      rcases ih hp' hi₁ hi₂ with ⟨t, o, hp'', rfl, rfl⟩ | ⟨t, o, hp'', rfl, rfl⟩
      · exact .inl ⟨t, o, hp'', rfl, by simp⟩
      · exact .inr ⟨t, o, hp'', rfl, by simp⟩
    | take hm' _ => cases hm.symm.trans hm'
  | @take m w m₁ d next v taken emitted hm hp ih =>
    cases h₂ with
    | refl => exact .inr ⟨v :: taken, emitted, .take hm hp, rfl, rfl⟩
    | done hm' _ => cases hm.symm.trans hm'
    | take hm' hp' =>
      cases hm.symm.trans hm'
      obtain ⟨rest, rfl⟩ := hi₁
      rw [List.map_cons, List.map_cons, List.cons_append, List.cons_prefix_cons] at hi₂
      obtain ⟨hv, hi₂⟩ := hi₂
      cases hv
      rcases ih hp' (List.prefix_append _ _) hi₂ with
        ⟨t, o, hp'', rfl, rfl⟩ | ⟨t, o, hp'', rfl, rfl⟩
      · exact .inl ⟨t, o, hp'', rfl, rfl⟩
      · exact .inr ⟨t, o, hp'', rfl, rfl⟩

/-- What a machine has emitted, it emits on the way to its end on more inputs. -/
theorem Path.prefix_of_stopped {m m₁ m₂ : Machine} {t₁ t₂ o₁ o₂ : List Int}
    {inputs : List Value} (h₁ : Path m t₁ o₁ m₁) (h₂ : Path m t₂ o₂ m₂)
    (hi₁ : t₁.map .integer <+: inputs) (hi₂ : t₂.map .integer <+: inputs)
    (hs : m₂.status ≠ .running) : o₁ <+: o₂ := by
  rcases h₁.comparable h₂ hi₁ hi₂ with ⟨t, o, _, _, rfl⟩ | ⟨t, o, hp, _, rfl⟩
  · exact List.prefix_append _ _
  · obtain ⟨_, rfl, _⟩ := hp.of_stopped hs
    simp

theorem Path.unique_of_stopped {m m₁ m₂ : Machine} {t₁ t₂ o₁ o₂ : List Int}
    {inputs : List Value} (h₁ : Path m t₁ o₁ m₁) (h₂ : Path m t₂ o₂ m₂)
    (hi₁ : t₁.map .integer <+: inputs) (hi₂ : t₂.map .integer <+: inputs)
    (hs₁ : m₁.status ≠ .running) (hs₂ : m₂.status ≠ .running) : t₁ = t₂ ∧ o₁ = o₂ ∧ m₁ = m₂ := by
  rcases h₁.comparable h₂ hi₁ hi₂ with ⟨t, o, hp, rfl, rfl⟩ | ⟨t, o, hp, rfl, rfl⟩
  · obtain ⟨rfl, rfl, rfl⟩ := hp.of_stopped hs₁
    simp
  · obtain ⟨rfl, rfl, rfl⟩ := hp.of_stopped hs₂
    simp

end Machine

end Intcode
