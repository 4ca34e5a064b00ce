import Intcode.Proofs.Stepping
import Mathlib.Order.Defs.PartialOrder

namespace Intcode

/-- How a driven run ended, with the values that nothing has read. -/
structure Progress.Ending where
  result : Except Error Unit
  machine : Machine
  unread : List Value

/-- What a driven run has come to: its outputs, and how it ended unless it goes on. -/
structure Progress where
  outputs : List Int
  ending : Option Progress.Ending

namespace Progress

def start : Progress := ⟨[], none⟩

def ended (result : Except Error Unit) (m : Machine) (unread : List Value) : Progress :=
  ⟨[], some ⟨result, m, unread⟩⟩

def after (earlier : List Int) (p : Progress) : Progress :=
  { p with outputs := earlier ++ p.outputs }

def leaving (more : List Value) (p : Progress) : Progress :=
  { p with ending := p.ending.map fun e => { e with unread := e.unread ++ more } }

/-- The run has ended, and not because an input is missing. -/
def Settled (p : Progress) : Prop :=
  ∃ e, p.ending = some e ∧ ∀ why, e.result ≠ .error (.inputExhausted why)

/-- The later progress has all outputs of the earlier one, and is the same if the run had ended. -/
structure Le (p p' : Progress) : Prop where
  outputs : p.outputs <+: p'.outputs
  ended : p.ending.isSome → p' = p

instance : Preorder Progress where
  le := Le
  le_refl _ := ⟨List.prefix_refl _, fun _ => rfl⟩
  le_trans p p' p'' h h' := by
    refine ⟨h.outputs.trans h'.outputs, fun he => ?_⟩
    have hr := h.ended he
    subst hr
    exact h'.ended he

theorem start_le (p : Progress) : start ≤ p := ⟨List.nil_prefix, nofun⟩

theorem after_le {p p' : Progress} (h : p ≤ p') (earlier : List Int) :
    p.after earlier ≤ p'.after earlier := by
  refine ⟨(List.prefix_append_right_inj earlier).mpr h.outputs, fun he => ?_⟩
  have hr := h.ended he
  subst hr
  rfl

@[simp] theorem after_nil (p : Progress) : p.after [] = p := rfl

@[simp] theorem after_settled {p : Progress} {earlier : List Int} :
    (p.after earlier).Settled ↔ p.Settled := Iff.rfl

theorem Settled.eq_of_le {p p' : Progress} (hs : p.Settled) (h : p ≤ p') : p' = p := by
  obtain ⟨e, he, _⟩ := hs
  exact h.ended (by simp [he])

theorem Settled.leaving {p : Progress} (hs : p.Settled) (more : List Value) :
    (p.leaving more).Settled := by
  obtain ⟨e, he, hw⟩ := hs
  exact ⟨{ e with unread := e.unread ++ more }, by simp [Progress.leaving, he], hw⟩

end Progress

namespace Machine

/-- Steps on a queue to the end, putting in the next chunk each time an input is missing. -/
def deliver : (fuel : Nat) → (chunks : List (List Value)) → Machine → Queue → Progress
  | 0, _, _, _ => .start
  | fuel + 1, chunks, m, q =>
    match m.step Queue.host (fuel + 1) q with
    | none => .start
    | some o =>
      match o.result, chunks with
      | .ok (some v), chunks => (deliver fuel chunks o.machine o.host).after [v]
      | .ok none, chunks => .ended (.ok ()) o.machine (o.host.pending ++ chunks.flatten)
      | .error (.inputExhausted _), chunk :: chunks =>
        deliver fuel chunks o.machine (o.host.inject chunk)
      | .error e, chunks => .ended (.error e) o.machine (o.host.pending ++ chunks.flatten)

/-- Makes one move after the other on a list of values. -/
def feed : (fuel : Nat) → Machine → List Value → Progress
  | 0, _, _ => .start
  | fuel + 1, m, values =>
    match m.move with
    | .done (.error e) m' => .ended (.error e) m' values
    | .done (.ok out) m' =>
      if m'.isRunning then (feed fuel m' values).after out.toList
      else .ended (.ok ()) m' values
    | .await w d next =>
      match values with
      | [] => .ended (.error (.inputExhausted .emptyQueue)) w []
      | value :: rest =>
        match value.toCell with
        | .error e => .ended (.error e) w rest
        | .ok v => feed fuel (w.accept d v next) rest

theorem deliver_le {fuel fuel' : Nat} {m m' : Machine} {q q' : Queue} (chunks : List (List Value))
    (h : ∀ o, m.step Queue.host fuel q = some o → m'.step Queue.host fuel' q' = some o)
    (hle : fuel ≤ fuel') : m.deliver fuel chunks q ≤ m'.deliver fuel' chunks q' := by
  induction fuel generalizing fuel' m m' q q' chunks with
  | zero => exact Progress.start_le _
  | succ fuel ih =>
    obtain ⟨more, rfl⟩ : ∃ more, fuel' = more + 1 := ⟨fuel' - 1, by omega⟩
    have hmore : fuel ≤ more := by omega
    simp only [deliver]
    cases hs : m.step Queue.host (fuel + 1) q with
    | none => exact Progress.start_le _
    | some o =>
      rw [h o hs]
      simp only
      split
      next => exact Progress.after_le (ih _ (fun _ ho => step_mono ho hmore) hmore) _
      next => exact le_rfl
      next => exact ih _ (fun _ ho => step_mono ho hmore) hmore
      next => exact le_rfl

theorem deliver_mono {fuel fuel' : Nat} (hle : fuel ≤ fuel') (chunks : List (List Value))
    (m : Machine) (q : Queue) : m.deliver fuel chunks q ≤ m.deliver fuel' chunks q :=
  deliver_le chunks (fun _ ho => step_mono ho hle) hle

theorem feed_append (n : Nat) (m : Machine) (values more : List Value) :
    (m.feed n values).outputs <+: (m.feed n (values ++ more)).outputs ∧
      ((m.feed n values).Settled →
        m.feed n (values ++ more) = (m.feed n values).leaving more) := by
  induction n generalizing m values with
  | zero => exact ⟨List.prefix_refl _, by simp [feed, Progress.Settled, Progress.start]⟩
  | succ n ih =>
    simp only [feed]
    split
    next e m' hm => exact ⟨List.prefix_refl _, fun _ => rfl⟩
    next out m' hm =>
      split
      next =>
        obtain ⟨hp, hl⟩ := ih m' values
        refine ⟨(List.prefix_append_right_inj out.toList).mpr hp, fun he => ?_⟩
        rw [hl (Progress.after_settled.mp he)]
        rfl
      next => exact ⟨List.prefix_refl _, fun _ => rfl⟩
    next w d next hm =>
      cases values with
      | nil =>
        refine ⟨List.nil_prefix, fun he => ?_⟩
        obtain ⟨e, he, hw⟩ := he
        cases he
        exact absurd rfl (hw _)
      | cons value rest =>
        simp only [List.cons_append]
        split
        next => exact ⟨List.prefix_refl _, fun _ => rfl⟩
        next v hv => exact ih _ rest

end Machine

end Intcode
