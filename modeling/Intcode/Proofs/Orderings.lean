import Intcode.Amplifier.Search
import Mathlib.Data.List.Lex
import Mathlib.Data.List.Sort

namespace Intcode

section

variable {α β : Type} {xs ys : List α} {y : α}

theorem mem_picks : (y, ys) ∈ picks xs ↔
    ∃ before after, xs = before ++ y :: after ∧ ys = before ++ after := by
  induction xs generalizing ys with
  | nil => simp [picks]
  | cons x xs ih =>
    rw [picks, List.mem_cons, List.mem_map]
    constructor
    · rintro (he | ⟨⟨z, zs⟩, hz, he⟩)
      · cases he
        exact ⟨[], xs, rfl, rfl⟩
      · cases he
        obtain ⟨before, after, rfl, rfl⟩ := ih.mp hz
        exact ⟨x :: before, after, rfl, rfl⟩
    · rintro ⟨before, after, hxs, rfl⟩
      cases before with
      | nil =>
        cases hxs
        exact .inl rfl
      | cons b before =>
        cases hxs
        exact .inr ⟨(y, before ++ after), ih.mpr ⟨before, after, rfl, rfl⟩, rfl⟩

theorem perm_of_mem_picks (h : (y, ys) ∈ picks xs) : (y :: ys).Perm xs := by
  obtain ⟨before, after, rfl, rfl⟩ := mem_picks.mp h
  exact List.perm_middle.symm

theorem mem_arrangements_succ {n : Nat} {zs : List α} : zs ∈ arrangements (n + 1) xs ↔
    ∃ y ys, (y, ys) ∈ picks xs ∧ ∃ tail ∈ arrangements n ys, zs = y :: tail := by
  simp only [arrangements, List.mem_flatMap, List.mem_map, Prod.exists, eq_comm]

theorem mem_orderings : ys ∈ orderings xs ↔ ys.Perm xs := by
  suffices h : ∀ n (xs ys : List α), xs.length = n → (ys ∈ arrangements n xs ↔ ys.Perm xs) from
    h xs.length xs ys rfl
  intro n
  induction n with
  | zero =>
    intro xs ys hn
    obtain rfl := List.length_eq_zero_iff.mp hn
    simp [arrangements]
  | succ n ih =>
    intro xs ys hn
    rw [mem_arrangements_succ]
    constructor
    · rintro ⟨z, zs, hz, tail, htail, rfl⟩
      have hperm := perm_of_mem_picks hz
      have hlength : zs.length = n := by
        have hcount := hperm.length_eq
        rw [List.length_cons, hn] at hcount
        exact Nat.succ.inj hcount
      exact (((ih zs tail hlength).mp htail).cons z).trans hperm
    · intro hperm
      cases ys with
      | nil => simp [← hperm.length_eq] at hn
      | cons y tail =>
        obtain ⟨before, after, rfl⟩ := List.append_of_mem (hperm.mem_iff.mp List.mem_cons_self)
        have hrest : tail.Perm (before ++ after) := (hperm.trans List.perm_middle).cons_inv
        have hlength : (before ++ after).length = n := by
          simp at hn ⊢
          omega
        exact ⟨y, before ++ after, mem_picks.mpr ⟨before, after, rfl, rfl⟩, tail,
          (ih _ tail hlength).mpr hrest, rfl⟩

theorem picks_map (f : α → β) (xs : List α) :
    picks (xs.map f) = (picks xs).map fun (y, ys) => (f y, ys.map f) := by
  induction xs with
  | nil => rfl
  | cons x xs ih =>
    simp only [List.map_cons, picks, ih, List.map_map]
    rfl

theorem arrangements_map (f : α → β) (n : Nat) (xs : List α) :
    arrangements n (xs.map f) = (arrangements n xs).map (·.map f) := by
  induction n generalizing xs with
  | zero => rfl
  | succ n ih =>
    simp only [arrangements, picks_map, List.flatMap_map, List.map_flatMap, ih, List.map_map]
    rfl

/-- Orders are taken by position: they are the same whatever stands at the positions. -/
theorem orderings_map (f : α → β) (xs : List α) :
    orderings (xs.map f) = (orderings xs).map (·.map f) := by
  rw [orderings, orderings, List.length_map, arrangements_map]

theorem picks_fst (xs : List α) : (picks xs).map (·.1) = xs := by
  induction xs with
  | nil => rfl
  | cons x xs ih => simpa [picks, Function.comp_def] using ih

theorem arrangements_ascend [LT α] {n : Nat} (h : xs.Pairwise (· < ·)) :
    (arrangements n xs).Pairwise (· < ·) := by
  induction n generalizing xs with
  | zero => exact List.pairwise_singleton _ _
  | succ n ih =>
    rw [arrangements, List.pairwise_flatMap]
    constructor
    · rintro ⟨y, ys⟩ hpick
      obtain ⟨before, after, rfl, rfl⟩ := mem_picks.mp hpick
      have hrest : (before ++ after).Pairwise (· < ·) :=
        h.sublist ((List.sublist_cons_self y after).append_left before)
      exact List.pairwise_map.mpr ((ih hrest).imp fun hlt => List.Lex.cons hlt)
    · have hheads : ((picks xs).map (·.1)).Pairwise (· < ·) := (picks_fst xs).symm ▸ h
      refine (List.pairwise_map.mp hheads).imp ?_
      rintro ⟨y, ys⟩ ⟨z, zs⟩ hlt first hfirst second hsecond
      obtain ⟨_, _, rfl⟩ := List.mem_map.mp hfirst
      obtain ⟨_, _, rfl⟩ := List.mem_map.mp hsecond
      exact List.Lex.rel hlt

theorem orderings_ascend [LT α] (h : xs.Pairwise (· < ·)) : (orderings xs).Pairwise (· < ·) :=
  arrangements_ascend h

end

/-- An order of the positions of a list, in which each of them stands once. -/
structure Placing (size : Nat) where
  positions : List (Fin size)
  perm : positions.Perm (List.finRange size)

namespace Placing

variable {α : Type} {size : Nat}

/-- What a list has at the positions. -/
def order (xs : List α) (p : Placing xs.length) : List α := p.positions.map xs.get

/-- The lexicographic order by position. -/
instance : LT (Placing size) := ⟨fun p q => p.positions < q.positions⟩

theorem lt_iff {p q : Placing size} : p < q ↔ p.positions < q.positions := Iff.rfl

theorem not_self_lt (p : Placing size) : ¬ p < p := lt_irrefl p.positions

theorem precedes_trans {p q r : Placing size} (h : p < q) (h' : q < r) : p < r :=
  lt_trans (lt_iff.mp h) (lt_iff.mp h')

theorem lt_of_lt_of_not_lt {p q r : Placing size} (h : p < q) (h' : ¬ r < q) : p < r :=
  lt_of_lt_of_le (lt_iff.mp h) (not_lt.mp fun hlt => h' (lt_iff.mpr hlt))

def all (size : Nat) : List (Placing size) :=
  (orderings (List.finRange size)).pmap Placing.mk fun _ h => mem_orderings.mp h

theorem all_positions (size : Nat) :
    (all size).map (·.positions) = orderings (List.finRange size) := by
  rw [all, List.map_pmap]
  simp

theorem mem_all (p : Placing size) : p ∈ all size :=
  List.mem_pmap.mpr ⟨p.positions, mem_orderings.mpr p.perm, rfl⟩

theorem all_ascend (size : Nat) : (all size).Pairwise (· < ·) := by
  have h : ((all size).map (·.positions)).Pairwise (· < ·) :=
    (all_positions size).symm ▸ orderings_ascend (List.sortedLT_finRange size).pairwise
  exact (List.pairwise_map.mp h).imp lt_iff.mpr

/-- In the order of all placings, those in front of one are those that precede it. -/
theorem mem_front {p q : Placing size} {before after : List (Placing size)}
    (h : all size = before ++ p :: after) : q ∈ before ↔ q < p := by
  have hascend := all_ascend size
  rw [h, List.pairwise_append, List.pairwise_cons] at hascend
  obtain ⟨_, ⟨hafter, _⟩, hbefore⟩ := hascend
  refine ⟨fun hq => hbefore q hq p List.mem_cons_self, fun hlt => ?_⟩
  have hmem := mem_all q
  rw [h, List.mem_append, List.mem_cons] at hmem
  obtain hq | rfl | hq := hmem
  · exact hq
  · exact absurd hlt q.not_self_lt
  · exact absurd (precedes_trans hlt (hafter q hq)) q.not_self_lt

theorem order_perm (xs : List α) (p : Placing xs.length) : (p.order xs).Perm xs := by
  have h := p.perm.map xs.get
  rwa [List.map_get_finRange] at h

theorem orderings_eq (xs : List α) : orderings xs = (all xs.length).map (order xs) := by
  have h := orderings_map xs.get (List.finRange xs.length)
  rw [List.map_get_finRange, ← all_positions, List.map_map] at h
  exact h

end Placing

end Intcode
