import Intcode.Peripheral.Basic
import Intcode.Peripheral.Grid
import Mathlib.Data.Finset.Card
import Mathlib.Data.List.Basic

namespace Intcode

namespace Device

variable {δ : Type}

/-- The device after it was fed these values, whichever of them it has rejected. -/
def feedEach (device : Device δ) (values : List Int) (d : δ) : δ :=
  values.foldl (fun d v => (device.feed v d).2) d

/-- What every value makes of a device, a sequence of values makes of it. -/
theorem feedEach_of_feed {device : Device δ} (made : List Int → δ)
    (h : ∀ values v, (device.feed v (made values)).2 = made (values ++ [v])) (values : List Int) :
    device.feedEach values (made []) = made values := by
  induction values using List.reverseRecOn with
  | nil => rfl
  | append_singleton values v ih =>
    rw [← h, ← ih]
    simp [feedEach]

end Device

/-- What was put at a position last. -/
def lastPut {α : Type} (puts : List (Position × α)) (p : Position) : Option α :=
  puts.reverse.lookup p

namespace Position

theorem before_trans {p q r : Position} (h : p.before q = true) (h' : q.before r = true) :
    p.before r = true := by
  simp only [before, Bool.or_eq_true, Bool.and_eq_true, decide_eq_true_eq] at h h' ⊢
  omega

theorem not_before_self (p : Position) : p.before p = false := by
  simp [before]

theorem before_of_not_before {p q : Position} (hne : p ≠ q) (h : p.before q ≠ true) :
    q.before p = true := by
  obtain ⟨px, py⟩ := p
  obtain ⟨qx, qy⟩ := q
  simp only [ne_eq, mk.injEq, before, Bool.or_eq_true, Bool.and_eq_true, decide_eq_true_eq]
    at hne h ⊢
  omega

end Position

section

variable {α β : Type}

@[simp] theorem lastPut_nil (p : Position) : lastPut ([] : List (Position × α)) p = none := rfl

@[simp] theorem lastPut_append (puts : List (Position × α)) (q p : Position) (v : α) :
    lastPut (puts ++ [(q, v)]) p = if p = q then some v else lastPut puts p := by
  by_cases h : p = q
  · simp [lastPut, h]
  · simp [lastPut, List.lookup_cons, beq_false_of_ne h, h]

theorem lastPut_map (f : α → β) (puts : List (Position × α)) (p : Position) :
    lastPut (puts.map fun (q, v) => (q, f v)) p = (lastPut puts p).map f := by
  induction puts using List.reverseRecOn with
  | nil => rfl
  | append_singleton puts put ih =>
    obtain ⟨q, v⟩ := put
    simp only [List.map_append, List.map_cons, List.map_nil, lastPut_append, ih]
    split <;> rfl

theorem mem_of_lastPut {puts : List (Position × α)} {p : Position} {v : α}
    (h : lastPut puts p = some v) : (p, v) ∈ puts := by
  induction puts using List.reverseRecOn with
  | nil => simp at h
  | append_singleton puts put ih =>
    obtain ⟨q, w⟩ := put
    rw [lastPut_append] at h
    split at h
    next hp =>
      cases h
      simp [hp]
    next => simp [ih h]

namespace Grid

/-- The entries are in order, so that no position has two of them. -/
def Ordered (entries : List (Position × α)) : Prop :=
  entries.Pairwise fun e e' => e.1.before e'.1 = true

theorem mem_map_setIn {p q : Position} {v : α} {entries : List (Position × α)} :
    q ∈ (setIn p v entries).map Prod.fst ↔ q = p ∨ q ∈ entries.map Prod.fst := by
  induction entries with
  | nil => simp [setIn]
  | cons e rest ih =>
    obtain ⟨r, w⟩ := e
    simp only [setIn]
    split
    next h => simp [h]
    next =>
      split
      next => simp
      next =>
        simp only [List.map_cons, List.mem_cons, ih]
        tauto

theorem Ordered.setIn {p : Position} {v : α} {entries : List (Position × α)} (h : Ordered entries) :
    Ordered (setIn p v entries) := by
  induction entries with
  | nil => simp [Grid.setIn, Ordered]
  | cons e rest ih =>
    obtain ⟨r, w⟩ := e
    obtain ⟨hfirst, hrest⟩ := List.pairwise_cons.mp h
    simp only [Grid.setIn]
    split
    next hp =>
      subst hp
      exact List.pairwise_cons.mpr ⟨hfirst, hrest⟩
    next hne =>
      split
      next hb =>
        refine List.pairwise_cons.mpr ⟨fun e he => ?_, h⟩
        rcases List.mem_cons.mp he with rfl | he
        · exact hb
        · exact Position.before_trans hb (hfirst e he)
      next hb =>
        have hr : r.before p = true := Position.before_of_not_before hne hb
        refine List.pairwise_cons.mpr ⟨fun e he => ?_, ih hrest⟩
        have hmem : e.1 ∈ (Grid.setIn p v rest).map Prod.fst := List.mem_map_of_mem he
        rcases mem_map_setIn.mp hmem with hp | hold
        · rw [hp]
          exact hr
        · obtain ⟨e', he', hsame⟩ := List.mem_map.mp hold
          rw [← hsame]
          exact hfirst e' he'

theorem Ordered.nodup {entries : List (Position × α)} (h : Ordered entries) :
    (entries.map Prod.fst).Nodup := by
  refine List.pairwise_map.mpr (h.imp fun hb he => ?_)
  rw [he, Position.not_before_self] at hb
  cases hb

theorem Ordered.mem_iff_lookup {entries : List (Position × α)} (h : Ordered entries) {p : Position}
    {v : α} : (p, v) ∈ entries ↔ entries.lookup p = some v := by
  induction entries with
  | nil => simp
  | cons e rest ih =>
    obtain ⟨q, w⟩ := e
    obtain ⟨hfirst, hrest⟩ := List.pairwise_cons.mp h
    by_cases hp : p = q
    · subst hp
      have hnot : (p, v) ∉ rest := fun hm => by
        have hb := hfirst _ hm
        rw [Position.not_before_self] at hb
        cases hb
      simp [hnot, eq_comm]
    · simp [List.lookup_cons, beq_false_of_ne hp, hp, ih hrest]

/-- The grid on which values were put one after another. -/
def overlay (puts : List (Position × α)) : Grid α := puts.foldl (fun g put => g.set put.1 put.2) {}

@[simp] theorem overlay_append (puts : List (Position × α)) (p : Position) (v : α) :
    overlay (puts ++ [(p, v)]) = (overlay puts).set p v := by
  simp [overlay]

theorem overlay_ordered (puts : List (Position × α)) : Ordered (overlay puts).entries := by
  induction puts using List.reverseRecOn with
  | nil => exact .nil
  | append_singleton puts put ih =>
    rw [overlay_append]
    exact ih.setIn

@[simp] theorem get?_overlay (puts : List (Position × α)) (p : Position) :
    (overlay puts).get? p = lastPut puts p := by
  induction puts using List.reverseRecOn with
  | nil => rfl
  | append_singleton puts put ih =>
    obtain ⟨q, v⟩ := put
    rw [overlay_append, get?_set, lastPut_append, ih]
    simp only [eq_comm]

theorem mem_entries_overlay {puts : List (Position × α)} {p : Position} {v : α} :
    (p, v) ∈ (overlay puts).entries ↔ lastPut puts p = some v := by
  rw [(overlay_ordered puts).mem_iff_lookup, ← get?_overlay]
  rfl

theorem mem_positions_overlay {puts : List (Position × α)} {p : Position} :
    p ∈ (overlay puts).entries.map Prod.fst ↔ p ∈ puts.map Prod.fst := by
  induction puts using List.reverseRecOn with
  | nil => rfl
  | append_singleton puts put ih =>
    obtain ⟨q, v⟩ := put
    rw [overlay_append]
    refine mem_map_setIn.trans ?_
    rw [ih]
    simp [or_comm]

theorem size_overlay (puts : List (Position × α)) :
    (overlay puts).size = (puts.map Prod.fst).toFinset.card := by
  have hnodup := (overlay_ordered puts).nodup
  have hsame : ((overlay puts).entries.map Prod.fst).toFinset = (puts.map Prod.fst).toFinset := by
    ext p
    rw [List.mem_toFinset, List.mem_toFinset, mem_positions_overlay]
  rw [← hsame, List.toFinset_card_of_nodup hnodup, List.length_map]
  rfl

end Grid

end

end Intcode
