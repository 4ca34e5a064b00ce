import Intcode.Peripheral.Cabinet
import Intcode.Proofs.Overlay
import Intcode.Proofs.Reference

namespace Intcode

namespace OpenTriple

def values : OpenTriple → List Int
  | .none => []
  | .column x => [x]
  | .place x y => [x, y]

end OpenTriple

namespace Cabinet

structure Triple where
  place : Position
  value : Int
deriving DecidableEq, Repr

namespace Triple

def values (t : Triple) : List Int := [t.place.x, t.place.y, t.value]

/-- The triples that set the score. -/
def IsScore (t : Triple) : Prop := t.place = scorePosition

instance (t : Triple) : Decidable t.IsScore := inferInstanceAs (Decidable (t.place = scorePosition))

/-- The triples that show a tile. -/
def IsDrawn (t : Triple) : Prop := ¬ t.IsScore ∧ 0 ≤ t.value ∧ t.value ≤ 4

instance (t : Triple) : Decidable t.IsDrawn :=
  inferInstanceAs (Decidable (¬ t.IsScore ∧ 0 ≤ t.value ∧ t.value ≤ 4))

/-- The triples that name an unknown tile. -/
def IsBad (t : Triple) : Prop := ¬ t.IsScore ∧ ¬ (0 ≤ t.value ∧ t.value ≤ 4)

end Triple

/-- The whole triples of a sequence of values, cut off one behind another. -/
def triples : List Int → List Triple
  | [] => []
  | [_] => []
  | [_, _] => []
  | x :: y :: v :: rest => ⟨⟨x, y⟩, v⟩ :: triples rest

/-- The values behind the last whole triple. -/
def unfinished : List Int → OpenTriple
  | [] => .none
  | [x] => .column x
  | [x, y] => .place x y
  | _ :: _ :: _ :: rest => unfinished rest

/-- The scores that triples set, in order. -/
def scores (ts : List Triple) : List Int := (ts.filter (·.IsScore)).map (·.value)

/-- The tiles that triples show, in order. -/
def drawn (ts : List Triple) : List (Position × Int) :=
  (ts.filter (·.IsDrawn)).map fun t => (t.place, t.value)

/-- Where a tile was shown last. -/
def lastPlace (tile : Int) (puts : List (Position × Int)) : Option Position :=
  ((puts.filter (·.2 = tile)).map Prod.fst).getLast?

theorem triples_append (l : List Int) (v : Int) :
    triples (l ++ [v]) =
      match unfinished l with
      | .place x y => triples l ++ [⟨⟨x, y⟩, v⟩]
      | _ => triples l := by
  fun_induction unfinished l with
  | case1 => rfl
  | case2 x => rfl
  | case3 x y => rfl
  | case4 x y w rest ih =>
    simp only [List.cons_append, triples, ih]
    split <;> rfl

theorem unfinished_append (l : List Int) (v : Int) :
    unfinished (l ++ [v]) =
      match unfinished l with
      | .none => .column v
      | .column x => .place x v
      | .place _ _ => .none := by
  fun_induction unfinished l with
  | case1 => rfl
  | case2 x => rfl
  | case3 x y => rfl
  | case4 x y w rest ih => exact ih

theorem flatMap_triples (l : List Int) :
    (triples l).flatMap Triple.values ++ (unfinished l).values = l := by
  fun_induction unfinished l with
  | case1 => rfl
  | case2 x => rfl
  | case3 x y => rfl
  | case4 x y w rest ih => simp [triples, Triple.values, ih]

theorem scores_append (ts : List Triple) (t : Triple) :
    scores (ts ++ [t]) = if t.IsScore then scores ts ++ [t.value] else scores ts := by
  by_cases h : t.IsScore <;> simp [scores, h]

theorem drawn_append (ts : List Triple) (t : Triple) :
    drawn (ts ++ [t]) = if t.IsDrawn then drawn ts ++ [(t.place, t.value)] else drawn ts := by
  by_cases h : t.IsDrawn <;> simp [drawn, h]

theorem lastPlace_append (tile : Int) (puts : List (Position × Int)) (p : Position) (n : Int) :
    lastPlace tile (puts ++ [(p, n)]) = if n = tile then some p else lastPlace tile puts := by
  by_cases h : n = tile <;> simp [lastPlace, h]

theorem mem_drawn {ts : List Triple} {p : Position} {n : Int} (h : (p, n) ∈ drawn ts) :
    p ≠ scorePosition ∧ 0 ≤ n ∧ n ≤ 4 := by
  obtain ⟨t, ht, heq⟩ := List.mem_map.mp h
  cases heq
  exact of_decide_eq_true (List.mem_filter.mp ht).2

end Cabinet

namespace Tile

def ofCode (n : Int) : Tile := (ofCode? n).getD .empty

theorem code_mem (tile : Tile) :
    tile.code = 0 ∨ tile.code = 1 ∨ tile.code = 2 ∨ tile.code = 3 ∨ tile.code = 4 := by
  cases tile <;> decide

theorem ofCode?_known {n : Int} (h : 0 ≤ n ∧ n ≤ 4) : ofCode? n = some (ofCode n) := by
  obtain rfl | rfl | rfl | rfl | rfl : n = 0 ∨ n = 1 ∨ n = 2 ∨ n = 3 ∨ n = 4 := by omega
  all_goals rfl

theorem code_ofCode {n : Int} (h : 0 ≤ n ∧ n ≤ 4) : (ofCode n).code = n := by
  have hfound := ofCode?_known h
  simpa using List.find?_some hfound

theorem ofCode?_eq_none {n : Int} (h : ¬ (0 ≤ n ∧ n ≤ 4)) : ofCode? n = none := by
  refine List.find?_eq_none.mpr fun tile _ hcode => h ?_
  have hn : tile.code = n := by simpa using hcode
  rw [← hn]
  cases tile <;> decide

theorem ofCode_eq_iff {n : Int} (h : 0 ≤ n ∧ n ≤ 4) (tile : Tile) :
    ofCode n = tile ↔ n = tile.code := by
  obtain rfl | rfl | rfl | rfl | rfl : n = 0 ∨ n = 1 ∨ n = 2 ∨ n = 3 ∨ n = 4 := by omega
  all_goals cases tile <;> decide

end Tile

namespace Error

theorem ofComplaint_eq_rejected {k k' : Complaint} :
    ofComplaint k = .rejected k' ↔ k = k' ∧ k.isWritable = true := by
  unfold ofComplaint
  split
  next h => simp [h]
  next h => simp [h]

theorem ofComplaint_eq_tooLong {k : Complaint} :
    ofComplaint k = .numeral .tooLong ↔ k.isWritable = false := by
  unfold ofComplaint
  split
  next h => simp [h]
  next h => simp [h]

end Error

namespace Cabinet

/-- The cabinet that whole triples make, with a part of another. -/
def made (freePlay : Bool) (ts : List Triple) (pending : OpenTriple) : Cabinet where
  freePlay
  screen := .overlay ((drawn ts).map fun (p, n) => (p, Tile.ofCode n))
  score := (scores ts).getLast?.getD 0
  ball := lastPlace Tile.ball.code (drawn ts)
  paddle := lastPlace Tile.paddle.code (drawn ts)
  pending

theorem takeTriple_bad {t : Triple} (h : t.IsBad) (c : Cabinet) :
    c.takeTriple t.place.x t.place.y t.value =
      (.error (.ofComplaint (.tile t.value t.place.x t.place.y)), c) := by
  have hplace : (⟨t.place.x, t.place.y⟩ : Position) ≠ scorePosition := h.1
  simp only [takeTriple, hplace, if_false, Tile.ofCode?_eq_none h.2]

theorem takeTriple_good {t : Triple} (h : ¬ t.IsBad) (c : Cabinet) :
    (c.takeTriple t.place.x t.place.y t.value).1 = .ok () := by
  unfold takeTriple
  split
  next => rfl
  next hplace =>
    have hknown : 0 ≤ t.value ∧ t.value ≤ 4 := by
      by_contra hunknown
      exact h ⟨hplace, hunknown⟩
    rw [Tile.ofCode?_known hknown]

theorem takeTriple_made (freePlay : Bool) (ts : List Triple) (t : Triple) :
    ((made freePlay ts .none).takeTriple t.place.x t.place.y t.value).2 =
      made freePlay (ts ++ [t]) .none := by
  by_cases hscore : t.IsScore
  · have hplace : (⟨t.place.x, t.place.y⟩ : Position) = scorePosition := hscore
    have hdrawn : ¬ t.IsDrawn := fun h => h.1 hscore
    simp [takeTriple, made, hplace, scores_append, drawn_append, hscore, hdrawn]
  · have hplace : (⟨t.place.x, t.place.y⟩ : Position) ≠ scorePosition := hscore
    by_cases hknown : 0 ≤ t.value ∧ t.value ≤ 4
    · have hdrawn : t.IsDrawn := ⟨hscore, hknown⟩
      simp [takeTriple, hplace, Tile.ofCode?_known hknown, made, draw, scores_append,
        drawn_append, hscore, hdrawn, lastPlace_append, Tile.ofCode_eq_iff hknown]
    · have hdrawn : ¬ t.IsDrawn := fun h => hknown h.2
      rw [takeTriple_bad ⟨hscore, hknown⟩]
      simp [made, scores_append, drawn_append, hscore, hdrawn]

theorem feed_made (freePlay : Bool) (l : List Int) (v : Int) :
    (device.feed v (made freePlay (triples l) (unfinished l))).2 =
      made freePlay (triples (l ++ [v])) (unfinished (l ++ [v])) := by
  rw [triples_append, unfinished_append]
  cases hopen : unfinished l with
  | none => rfl
  | column x => rfl
  | place x y => exact takeTriple_made freePlay (triples l) ⟨⟨x, y⟩, v⟩

theorem feedEach_made (freePlay : Bool) (values : List Int) :
    device.feedEach values { freePlay } = made freePlay (triples values) (unfinished values) :=
  Device.feedEach_of_feed (fun values => made freePlay (triples values) (unfinished values))
    (feed_made freePlay) values

theorem sum_countP_code (entries : List (Position × Tile)) :
    let count (code : Int) := entries.countP fun (_, tile) => tile.code = code
    count 0 + count 1 + count 2 + count 3 + count 4 = entries.length := by
  intro count
  induction entries with
  | nil => rfl
  | cons e rest ih =>
    obtain ⟨p, tile⟩ := e
    simp only [count, List.countP_cons, List.length_cons] at ih ⊢
    obtain h | h | h | h | h := tile.code_mem <;> simp [h] <;> omega

/-- Which way a paddle has to go to be under a ball. -/
def pull : Option Position → Option Position → Int
  | some ball, some paddle => (ball.x - paddle.x).sign
  | _, _ => 0

theorem joystick_eq_pull (c : Cabinet) : c.joystick = pull c.ball c.paddle := by
  unfold joystick
  cases c.ball with
  | none => rfl
  | some ball =>
    cases c.paddle with
    | none => rfl
    | some paddle =>
      simp only [pull]
      split
      next h =>
        have hneg : ball.x - paddle.x < 0 := by omega
        exact (Int.sign_eq_neg_one_of_neg hneg).symm
      next =>
        split
        next h =>
          have hpos : 0 < ball.x - paddle.x := by omega
          exact (Int.sign_eq_one_of_pos hpos).symm
        next =>
          have hsame : ball.x - paddle.x = 0 := by omega
          rw [hsame]
          rfl

/-- What a cabinet has to show for the values that were fed to it. -/
structure Frames (values : List Int) (c : Cabinet) : Prop where
  pending : (triples values).flatMap Triple.values ++ c.pending.values = values
  score : c.score = (scores (triples values)).getLast?.getD 0
  screen : ∀ p, (c.screen.get? p).map Tile.code = lastPut (drawn (triples values)) p
  positions : ∀ p, p ∈ c.screen.entries.map Prod.fst ↔ p ∈ (drawn (triples values)).map Prod.fst
  unscored : scorePosition ∉ c.screen.entries.map Prod.fst
  size : c.screen.size = ((drawn (triples values)).map Prod.fst).toFinset.card
  codes : ∀ e ∈ c.screen.entries, 0 ≤ e.2.code ∧ e.2.code ≤ 4
  counts : c.count 0 + c.count 1 + c.count 2 + c.count 3 + c.count 4 = c.screen.size
  ball : c.ball = lastPlace 4 (drawn (triples values))
  paddle : c.paddle = lastPlace 3 (drawn (triples values))
  joystick : device.take c = (.ok (.integer (pull c.ball c.paddle)), c)

theorem frames_made (freePlay : Bool) (values : List Int) :
    Frames values (made freePlay (triples values) (unfinished values)) := by
  have hpositions (p : Position) :
      p ∈ (made freePlay (triples values) (unfinished values)).screen.entries.map Prod.fst ↔
        p ∈ (drawn (triples values)).map Prod.fst := by
    rw [made, Grid.mem_positions_overlay, List.map_map]
    rfl
  refine ⟨flatMap_triples values, rfl, fun p => ?_, hpositions, fun hp => ?_, ?_, fun e _ => ?_,
    sum_countP_code _, rfl, rfl, ?_⟩
  · rw [made, Grid.get?_overlay, lastPut_map, Option.map_map]
    cases hput : lastPut (drawn (triples values)) p with
    | none => rfl
    | some n =>
      have hknown := (mem_drawn (mem_of_lastPut hput)).2
      simp [Tile.code_ofCode hknown]
  · obtain ⟨⟨p, n⟩, hput, hsame⟩ := List.mem_map.mp ((hpositions _).mp hp)
    exact (mem_drawn hput).1 hsame
  · rw [made, Grid.size_overlay, List.map_map]
    rfl
  · cases e.2 <;> decide
  · rw [← joystick_eq_pull]
    rfl

/-- Behind these values, a value completes a triple with an unknown tile. -/
def Spoils (values : List Int) (v : Int) (k : Complaint) : Prop :=
  ∃ t : Triple, triples (values ++ [v]) = triples values ++ [t] ∧ t.IsBad ∧
    k = .tile t.value t.place.x t.place.y

theorem triples_append_iff {values : List Int} {v : Int} {t : Triple} :
    triples (values ++ [v]) = triples values ++ [t] ↔
      unfinished values = .place t.place.x t.place.y ∧ t.value = v := by
  obtain ⟨⟨x, y⟩, w⟩ := t
  rw [triples_append]
  cases unfinished values with
  | none => simp
  | column x' => simp
  | place x' y' => simp [eq_comm]

theorem feed_spoiled {values : List Int} {v : Int} {k : Complaint} (h : Spoils values v k)
    {c : Cabinet} (hc : c.pending = unfinished values) :
    device.feed v c = (.error (.ofComplaint k), { c with pending := .none }) := by
  obtain ⟨t, hlast, hbad, rfl⟩ := h
  obtain ⟨hopen, rfl⟩ := triples_append_iff.mp hlast
  simp only [device, feed, hc, hopen]
  exact takeTriple_bad hbad _

theorem feed_unspoiled {values : List Int} {v : Int} (h : ¬ ∃ k, Spoils values v k) {c : Cabinet}
    (hc : c.pending = unfinished values) : (device.feed v c).1 = .ok () := by
  simp only [device, feed, hc]
  cases hopen : unfinished values with
  | none => rfl
  | column x => rfl
  | place x y =>
    have hlast := triples_append_iff (t := ⟨⟨x, y⟩, v⟩).mpr ⟨hopen, rfl⟩
    exact takeTriple_good (t := ⟨⟨x, y⟩, v⟩) (fun hbad => h ⟨_, _, hlast, hbad, rfl⟩) _

theorem spoils_unique {values : List Int} {v : Int} {k k' : Complaint} (h : Spoils values v k)
    (h' : Spoils values v k') : k' = k := by
  obtain ⟨t, hlast, _, rfl⟩ := h
  obtain ⟨t', hlast', _, rfl⟩ := h'
  rw [hlast] at hlast'
  obtain rfl : t = t' := by simpa using hlast'
  rfl

/-- What a cabinet to which values were fed has to say to the next one. -/
structure Objects (values : List Int) (v : Int) (c : Cabinet) : Prop where
  accepted : (device.feed v c).1 = .ok () ↔ ¬ ∃ k, Spoils values v k
  rejected : ∀ k, (device.feed v c).1 = .error (.rejected k) ↔
    Spoils values v k ∧ k.isWritable = true
  lost : (device.feed v c).1 = .error (.numeral .tooLong) ↔
    ∃ k, Spoils values v k ∧ k.isWritable = false
  dropped : (∃ k, Spoils values v k) → (device.feed v c).2 = { c with pending := .none }

theorem objects_of_pending {values : List Int} {c : Cabinet} (hc : c.pending = unfinished values)
    (v : Int) : Objects values v c := by
  by_cases h : ∃ k, Spoils values v k
  · obtain ⟨k, hk⟩ := h
    have honly (k' : Complaint) : Spoils values v k' ↔ k' = k :=
      ⟨spoils_unique hk, fun hsame => hsame ▸ hk⟩
    have hfeed := feed_spoiled hk hc
    refine ⟨by simp [hfeed, honly], fun k' => ?_, ?_, fun _ => by rw [hfeed]⟩
    · rw [hfeed, Except.error.injEq, Error.ofComplaint_eq_rejected, honly]
      constructor
      · rintro ⟨rfl, hw⟩
        exact ⟨rfl, hw⟩
      · rintro ⟨rfl, hw⟩
        exact ⟨rfl, hw⟩
    · rw [hfeed, Except.error.injEq, Error.ofComplaint_eq_tooLong]
      simp only [honly, exists_eq_left]
  · have hfeed := feed_unspoiled h hc
    rw [not_exists] at h
    exact ⟨by simp [hfeed, h], fun k => by simp [hfeed, h], by simp [hfeed, h], by simp [h]⟩

/-- Fed with any integers, a cabinet is what their triples make of it, and rejects the values that
complete a triple with an unknown tile. A rejection that names a number too long to write is
lost. -/
theorem feedEach_frames_triples (freePlay : Bool) (values : List Int) :
    Frames values (device.feedEach values { freePlay }) ∧
      ∀ v, Objects values v (device.feedEach values { freePlay }) := by
  rw [feedEach_made]
  exact ⟨frames_made freePlay values, objects_of_pending rfl⟩

/-- A tile whose number is too long to write is not rejected as one. -/
theorem feed_loses_unwritable_tile :
    let v : Int := -(Numeral.writeBound : Int)
    Spoils [0, 0] v (.tile v 0 0) ∧
      ∀ k, (device.feed v (device.feedEach [0, 0] {})).1 ≠ .error (.rejected k) := by
  intro v
  have hv : v < 0 := Machine.neg_writeBound_neg
  have hspoils : Spoils [0, 0] v (.tile v 0 0) := by
    refine ⟨⟨⟨0, 0⟩, v⟩, rfl, ⟨by simp [Triple.IsScore, scorePosition], fun h => ?_⟩, rfl⟩
    have hle : 0 ≤ v := h.1
    omega
  have hlong : (Complaint.tile v 0 0).isWritable = false := by
    simp only [Complaint.isWritable, v, Machine.isWritable_neg_writeBound, Bool.false_and]
  refine ⟨hspoils, fun k => ?_⟩
  rw [feed_spoiled hspoils rfl]
  simp [Error.ofComplaint, hlong]

end Cabinet

end Intcode
