import Intcode.Peripheral.Robot
import Intcode.Proofs.Overlay
import Mathlib.Algebra.BigOperators.Group.Finset.Basic

namespace Intcode

namespace Heading

/-- The heading so many quarter turns clockwise from upwards. -/
def ofQuarters (n : Int) : Heading :=
  if n % 4 = 0 then .up else if n % 4 = 1 then .right else if n % 4 = 2 then .down else .left

theorem index_ofQuarters (n : Int) : ((ofQuarters n).index : Int) = n % 4 := by
  unfold ofQuarters
  split
  next h => exact h.symm
  next =>
    split
    next h => exact h.symm
    next =>
      split
      next h => exact h.symm
      next =>
        change (3 : Int) = n % 4
        omega

theorem clockwise_ofQuarters (n : Int) : (ofQuarters n).clockwise = ofQuarters (n + 1) := by
  obtain h | h | h | h : n % 4 = 0 ∨ n % 4 = 1 ∨ n % 4 = 2 ∨ n % 4 = 3 := by omega
  · simp [ofQuarters, h, show (n + 1) % 4 = 1 by omega, clockwise]
  · simp [ofQuarters, h, show (n + 1) % 4 = 2 by omega, clockwise]
  · simp [ofQuarters, h, show (n + 1) % 4 = 3 by omega, clockwise]
  · simp [ofQuarters, h, show (n + 1) % 4 = 0 by omega, clockwise]

theorem counterclockwise_clockwise (h : Heading) : h.clockwise.counterclockwise = h := by
  cases h <;> rfl

theorem counterclockwise_ofQuarters (n : Int) :
    (ofQuarters n).counterclockwise = ofQuarters (n - 1) := by
  have h := clockwise_ofQuarters (n - 1)
  rw [Int.sub_add_cancel] at h
  rw [← h, counterclockwise_clockwise]

end Heading

namespace Robot

/-- The values that stand for a colour and for a turn. -/
def IsBit (v : Int) : Prop := v = 0 ∨ v = 1

instance (v : Int) : Decidable (IsBit v) := inferInstanceAs (Decidable (v = 0 ∨ v = 1))

/-- The values that a robot accepts, in order. -/
def accepted (values : List Int) : List Int := values.filter (IsBit ·)

/-- The colours among the accepted values: every other one, from the first. -/
def colors : List Int → List Int
  | [] => []
  | [c] => [c]
  | c :: _ :: rest => c :: colors rest

/-- The turns among the accepted values: every other one, from the second. -/
def turns : List Int → List Int
  | _ :: t :: rest => t :: turns rest
  | _ => []

/-- The heading after some turns. -/
def headingAfter (turns : List Int) : Heading := .ofQuarters (turns.count 1 - turns.count 0)

/-- The place after some turns, each of which moves the robot ahead. -/
def placeAfter (turns : List Int) : Position where
  x := ∑ k ∈ Finset.range turns.length, (headingAfter (turns.take (k + 1))).dx
  y := ∑ k ∈ Finset.range turns.length, (headingAfter (turns.take (k + 1))).dy

/-- Where each colour is painted: behind as many turns as there are colours before it. -/
def strokes (accepted : List Int) : List (Position × Int) :=
  (colors accepted).zipIdx.map fun (c, k) => (placeAfter ((turns accepted).take k), c)

theorem colors_append (l : List Int) (v : Int) :
    colors (l ++ [v]) = if l.length % 2 = 0 then colors l ++ [v] else colors l := by
  fun_induction colors l with
  | case1 => rfl
  | case2 c => rfl
  | case3 c t rest ih =>
    have hparity : (c :: t :: rest).length % 2 = rest.length % 2 := by
      simp only [List.length_cons]
      omega
    simp only [List.cons_append, colors, ih, hparity]
    split <;> rfl

theorem turns_append (l : List Int) (v : Int) :
    turns (l ++ [v]) = if l.length % 2 = 0 then turns l else turns l ++ [v] := by
  fun_induction colors l with
  | case1 => rfl
  | case2 c => rfl
  | case3 c t rest ih =>
    have hparity : (c :: t :: rest).length % 2 = rest.length % 2 := by
      simp only [List.length_cons]
      omega
    simp only [List.cons_append, turns, ih, hparity]
    split <;> rfl

theorem length_turns (l : List Int) : (turns l).length = l.length / 2 := by
  fun_induction colors l with
  | case1 => rfl
  | case2 c => simp [turns]
  | case3 c t rest ih =>
    simp only [turns, List.length_cons, ih]
    omega

theorem length_colors (l : List Int) : (colors l).length = (l.length + 1) / 2 := by
  fun_induction colors l with
  | case1 => rfl
  | case2 c => simp
  | case3 c t rest ih =>
    simp only [List.length_cons, ih]
    omega

theorem placeAfter_append (turns : List Int) (t : Int) :
    placeAfter (turns ++ [t]) = (placeAfter turns).shift (headingAfter (turns ++ [t])).dx
      (headingAfter (turns ++ [t])).dy := by
  have hbefore (k : Nat) (hk : k ∈ Finset.range turns.length) :
      (turns ++ [t]).take (k + 1) = turns.take (k + 1) :=
    List.take_append_of_le_length (Finset.mem_range.mp hk)
  have hall : (turns ++ [t]).take (turns.length + 1) = turns ++ [t] :=
    List.take_of_length_le (by simp)
  unfold placeAfter Position.shift
  simp only [List.length_append, List.length_singleton, Finset.sum_range_succ, hall]
  congr 1
  · congr 1
    exact Finset.sum_congr rfl fun k hk => by rw [hbefore k hk]
  · congr 1
    exact Finset.sum_congr rfl fun k hk => by rw [hbefore k hk]

theorem strokes_append_color {l : List Int} (h : l.length % 2 = 0) (c : Int) :
    strokes (l ++ [c]) = strokes l ++ [(placeAfter (turns l), c)] := by
  have hlen : (colors l).length = (turns l).length := by
    rw [length_colors, length_turns]
    omega
  simp [strokes, colors_append, turns_append, h, List.zipIdx_append, hlen]

theorem strokes_append_turn {l : List Int} (h : l.length % 2 ≠ 0) (t : Int) :
    strokes (l ++ [t]) = strokes l := by
  have hlen : (colors l).length = (turns l).length + 1 := by
    rw [length_colors, length_turns]
    omega
  simp only [strokes, colors_append, turns_append, h, if_false]
  refine List.map_congr_left fun (c, k) hk => ?_
  have hle : k ≤ (turns l).length := by
    have hlt := (List.mem_zipIdx hk).2.1
    omega
  simp [List.take_append_of_le_length hle]

def paintOf (c : Int) : Paint := ⟨if c = 1 then .white else .black, .integer c⟩

/-- The robot that a sequence of accepted values makes of one with a starting colour. -/
def made (start : Int) (accepted : List Int) : Robot where
  startPaint := paintOf start
  position := placeAfter (turns accepted)
  heading := headingAfter (turns accepted)
  panels := .overlay ((strokes accepted).map fun (p, c) => (p, paintOf c))
  awaitsTurn := accepted.length % 2 ≠ 0

def complaint (r : Robot) (v : Int) : Complaint :=
  if r.awaitsTurn then .turn (.integer v) else .paintColor (.integer v)

theorem ofCode?_paint {c : Int} (h : IsBit c) : Paint.ofCode? (.integer c) = some (paintOf c) := by
  obtain rfl | rfl := h <;> rfl

theorem ofCode?_paint_eq_none {v : Int} (h : ¬ IsBit v) : Paint.ofCode? (.integer v) = none := by
  obtain ⟨h0, h1⟩ := not_or.mp h
  simp [Paint.ofCode?, Value.bit?, h0, h1]

theorem ofCode?_turn_eq_none {v : Int} (h : ¬ IsBit v) : Turn.ofCode? (.integer v) = none := by
  obtain ⟨h0, h1⟩ := not_or.mp h
  simp [Turn.ofCode?, Value.bit?, h0, h1]

theorem ofStartColor_bit {c : Int} (h : IsBit c) : ofStartColor (.integer c) = .ok (made c []) := by
  rw [ofStartColor, ofCode?_paint h]
  rfl

theorem feed_rejected {v : Int} (h : ¬ IsBit v) (r : Robot) :
    device.feed v r = (.error (.ofComplaint (r.complaint v)), r) := by
  simp only [device, feed, complaint]
  cases r.awaitsTurn with
  | true => simp [ofCode?_turn_eq_none h]
  | false => simp [ofCode?_paint_eq_none h]

theorem feed_accepted {v : Int} (h : IsBit v) (r : Robot) : (device.feed v r).1 = .ok () := by
  simp only [device, feed]
  cases r.awaitsTurn with
  | true => obtain rfl | rfl := h <;> rfl
  | false => simp [ofCode?_paint h]

theorem headingAfter_append {t : Int} (h : IsBit t) (turns : List Int) :
    ∃ turn, Turn.ofCode? (.integer t) = some turn ∧
      headingAfter (turns ++ [t]) = turn.apply (headingAfter turns) := by
  obtain rfl | rfl := h
  · have hright : (turns ++ [0]).count 1 = turns.count 1 := by simp
    have hleft : (turns ++ [0]).count 0 = turns.count 0 + 1 := by simp
    refine ⟨.left, rfl, ?_⟩
    rw [Turn.apply, headingAfter, headingAfter, hright, hleft, Heading.counterclockwise_ofQuarters]
    congr 1
    omega
  · have hright : (turns ++ [1]).count 1 = turns.count 1 + 1 := by simp
    have hleft : (turns ++ [1]).count 0 = turns.count 0 := by simp
    refine ⟨.right, rfl, ?_⟩
    rw [Turn.apply, headingAfter, headingAfter, hright, hleft, Heading.clockwise_ofQuarters]
    congr 1
    omega

theorem feed_made {v : Int} (h : IsBit v) (start : Int) (l : List Int) :
    (device.feed v (made start l)).2 = made start (l ++ [v]) := by
  simp only [device, feed, made]
  by_cases hl : l.length % 2 = 0
  · have hnext : (l.length + 1) % 2 = 1 := by omega
    simp [hl, hnext, ofCode?_paint h, paint, strokes_append_color, turns_append]
  · have hnext : (l.length + 1) % 2 = 0 := by omega
    obtain ⟨turn, hturn, hheading⟩ := headingAfter_append h (turns l)
    simp [hl, hnext, hturn, move, strokes_append_turn, turns_append, placeAfter_append, hheading]

theorem feedEach_made (start : Int) (values : List Int) :
    device.feedEach values (made start []) = made start (accepted values) := by
  refine Device.feedEach_of_feed (fun values => made start (accepted values)) ?_ values
  intro values v
  by_cases hv : IsBit v
  · rw [feed_made hv]
    simp [accepted, hv]
  · rw [feed_rejected hv]
    simp [accepted, hv]

/-- What a robot with a starting colour shows after it has accepted these values. -/
structure Shows (start : Int) (accepted : List Int) (r : Robot) : Prop where
  awaitsTurn : r.awaitsTurn = true ↔ accepted.length % 2 = 1
  heading : (r.heading.index : Int) = ((turns accepted).count 1 - (turns accepted).count 0) % 4
  position : r.position = placeAfter (turns accepted)
  color : ∀ p, (r.paintAt p).code =
    .integer ((lastPut (strokes accepted) p).getD (if p = .origin then start else 0))
  painted : r.painted = ((strokes accepted).map Prod.fst).toFinset.card
  white : r.whitePanels.Nodup ∧ ∀ p, p ∈ r.whitePanels ↔ lastPut (strokes accepted) p = some 1

theorem lastPut_paint (puts : List (Position × Int)) (p : Position) :
    lastPut (puts.map fun (q, c) => (q, paintOf c)) p = (lastPut puts p).map paintOf :=
  lastPut_map paintOf puts p

theorem whitePanel_eq_some {entry : Position × Paint} {p : Position} :
    (if entry.2.color = .white then some entry.1 else none) = some p ↔
      entry.1 = p ∧ entry.2.color = .white := by
  split
  next h => simp [h]
  next h => simp [h]

theorem mem_whitePanels {r : Robot} {p : Position} :
    p ∈ r.whitePanels ↔ ∃ paint, (p, paint) ∈ r.panels.entries ∧ paint.color = .white := by
  unfold whitePanels
  simp only [List.mem_filterMap, whitePanel_eq_some]
  constructor
  · rintro ⟨⟨q, paint⟩, hm, rfl, hw⟩
    exact ⟨paint, hm, hw⟩
  · rintro ⟨paint, hm, hw⟩
    exact ⟨(p, paint), hm, rfl, hw⟩

theorem whitePanels_nodup {r : Robot} (h : Grid.Ordered r.panels.entries) :
    r.whitePanels.Nodup := by
  refine List.Pairwise.filterMap _ (fun e e' hb p hp p' hp' => ?_) h
  rw [whitePanel_eq_some] at hp hp'
  obtain ⟨rfl, _⟩ := hp
  obtain ⟨rfl, _⟩ := hp'
  intro hsame
  rw [hsame, Position.not_before_self] at hb
  cases hb

theorem paintOf_white {c : Int} : (paintOf c).color = .white ↔ c = 1 := by
  unfold paintOf
  split
  next h => simp [h]
  next h => simp [h]

theorem shows_made (start : Int) (l : List Int) : Shows start l (made start l) := by
  refine ⟨by simp [made], Heading.index_ofQuarters _, rfl, fun p => ?_, ?_, ?_, fun p => ?_⟩
  · simp only [paintAt, made, Grid.get?_overlay, lastPut_paint]
    cases lastPut (strokes l) p with
    | some c => rfl
    | none =>
      simp only [Option.map_none, Option.getD_none]
      split <;> rfl
  · simp only [painted, made, Grid.size_overlay, List.map_map]
    rfl
  · exact whitePanels_nodup (Grid.overlay_ordered _)
  · simp only [mem_whitePanels, made, Grid.mem_entries_overlay, lastPut_paint]
    cases lastPut (strokes l) p with
    | none => simp
    | some c => simp [paintOf_white]

/-- Fed with any integers, a robot rejects those that are neither 0 nor 1, which change nothing of
it, and shows what the others say. -/
theorem feedEach_shows_accepted {start : Int} (hs : start = 0 ∨ start = 1) (values : List Int) :
    ∃ fresh, ofStartColor (.integer start) = .ok fresh ∧
      (∀ (r : Robot) (v : Int), ((device.feed v r).1 = .ok () ↔ v = 0 ∨ v = 1) ∧
        (¬ (v = 0 ∨ v = 1) → device.feed v r = (.error (.ofComplaint (r.complaint v)), r))) ∧
      Shows start (accepted values) (device.feedEach values fresh) := by
  refine ⟨made start [], ofStartColor_bit hs, fun r v => ⟨?_, fun hv => feed_rejected hv r⟩, ?_⟩
  · constructor
    · intro hok
      by_contra hv
      rw [feed_rejected hv r] at hok
      cases hok
    · intro hv
      exact feed_accepted hv r
  · rw [feedEach_made]
    exact shows_made start (accepted values)

/-- A walk over six panels, with a turn and a colour that do not exist on the way. -/
theorem feedEach_shows_accepted_walk :
    let values := [1, 7, 0, -1, 0, 0, 1, 0, 1, 0, 0, 1, 1, 0, 1, 0]
    ∃ fresh, ofStartColor (.integer 1) = .ok fresh ∧
      Shows 1 [1, 0, 0, 0, 1, 0, 1, 0, 0, 1, 1, 0, 1, 0] (device.feedEach values fresh) ∧
      (device.feedEach values fresh).position = ⟨0, 1⟩ ∧
      (device.feedEach values fresh).painted = 6 := by
  intro values
  obtain ⟨fresh, hfresh, _, hshows⟩ := feedEach_shows_accepted (.inr rfl) values
  refine ⟨fresh, hfresh, hshows, ?_⟩
  cases hfresh
  decide +kernel

end Robot

end Intcode
