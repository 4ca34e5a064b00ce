import Intcode.Proofs.Indifference
import Intcode.Proofs.Orderings

namespace Intcode

namespace Chain

/-- A run of a chain, connected in one of the two ways. -/
def run (wiring : Wiring) (fuel : Nat) (signal : Value) (c : Chain) :
    Option (Except Error Int × Chain) :=
  match wiring with
  | .serial => c.runSerial fuel signal
  | .feedback => c.runFeedback fuel signal

theorem run_again {wiring : Wiring} {fuel fuel' : Nat} {signal : Value} {c c' : Chain}
    {result : Except Error Int} (h : c.run wiring fuel signal = some (result, c'))
    (hle : fuel ≤ fuel') (before : Journal) :
    ∃ after, { c with journal := before }.run wiring fuel' signal =
      some (result, { c' with journal := after }) := by
  cases wiring with
  | serial => exact runSerial_again h hle before
  | feedback => exact runFeedback_again h hle before

/-- With this order of the phase settings a chain is refused with this result, or a fresh chain
comes to it. -/
def Gives (wiring : Wiring) (program order : List Value) (result : Except Error Int) : Prop :=
  match ofPhases program order with
  | .error e => result = .error e
  | .ok c => ∃ fuel c', c.run wiring fuel (.integer 0) = some (result, c')

section

variable {wiring : Wiring} {program order : List Value} {result result' : Except Error Int}

theorem signalOf_eq (fuel : Nat) (wiring : Wiring) (program order : List Value)
    (journal : Journal) :
    signalOf fuel wiring program order journal =
      match ofPhases program order with
      | .error e => some (.error e, journal)
      | .ok c => (run wiring fuel (.integer 0) { c with journal }).map fun (result, c) =>
          (result, c.journal) := by
  unfold signalOf
  cases ofPhases program order with
  | error e => rfl
  | ok c => cases wiring <;> rfl

theorem Gives.signalOf (h : Gives wiring program order result) :
    ∃ enough, ∀ fuel ≥ enough, ∀ journal, ∃ journal',
      signalOf fuel wiring program order journal = some (result, journal') := by
  simp only [signalOf_eq]
  unfold Gives at h
  cases hc : ofPhases program order with
  | error e =>
    simp only [hc] at h
    exact ⟨0, fun fuel _ journal => ⟨journal, by rw [h]⟩⟩
  | ok c =>
    simp only [hc] at h
    obtain ⟨enough, c', hrun⟩ := h
    refine ⟨enough, fun fuel hf journal => ?_⟩
    obtain ⟨after, hagain⟩ := run_again hrun hf journal
    exact ⟨after, congrArg (Option.map _) hagain⟩

theorem gives_of_signalOf {fuel : Nat} {journal journal' : Journal}
    (h : Chain.signalOf fuel wiring program order journal = some (result, journal')) :
    Gives wiring program order result := by
  rw [signalOf_eq] at h
  unfold Gives
  cases hc : ofPhases program order with
  | error e =>
    simp only [hc] at h
    cases h
    rfl
  | ok c =>
    simp only [hc] at h
    obtain ⟨⟨result, c'⟩, hrun, he⟩ := Option.map_eq_some_iff.mp h
    cases he
    obtain ⟨after, hagain⟩ := run_again hrun (Nat.le_refl fuel) c.journal
    exact ⟨fuel, _, hagain⟩

theorem gives_of_map (fuel : Nat)
    (h : (Chain.signalOf fuel wiring program order #[]).map (·.1) = some result) :
    Gives wiring program order result := by
  obtain ⟨⟨_, journal⟩, hs, rfl⟩ := Option.map_eq_some_iff.mp h
  exact gives_of_signalOf hs

theorem Gives.unique (h : Gives wiring program order result)
    (h' : Gives wiring program order result') :
    result = result' := by
  obtain ⟨enough, hrun⟩ := h.signalOf
  obtain ⟨enough', hrun'⟩ := h'.signalOf
  obtain ⟨_, hs⟩ := hrun (max enough enough') (Nat.le_max_left _ _) #[]
  obtain ⟨_, hs'⟩ := hrun' (max enough enough') (Nat.le_max_right _ _) #[]
  cases hs.symm.trans hs'
  rfl

end

/-- What a search has kept after these candidates. -/
def kept (best : Option Best) (found : List Best) : Option Best :=
  found.foldl (fun best b => some (better best b)) best

/-- The first of the candidates with the greatest signal. -/
def FirstBest (b : Best) (found : List Best) : Prop :=
  ∃ before after, found = before ++ b :: after ∧ (∀ c ∈ before, c.1 < b.1) ∧ ∀ c ∈ after, c.1 ≤ b.1

section

variable {b b₀ c : Best} {found : List Best}

theorem FirstBest.mem (h : FirstBest b found) : b ∈ found := by
  obtain ⟨_, _, rfl, _, _⟩ := h
  exact List.mem_append_right _ List.mem_cons_self

theorem FirstBest.le (h : FirstBest b found) (hc : c ∈ found) : c.1 ≤ b.1 := by
  obtain ⟨before, after, rfl, hbefore, hafter⟩ := h
  rcases List.mem_append.mp hc with hc | hc
  · exact Int.le_of_lt (hbefore c hc)
  · rcases List.mem_cons.mp hc with rfl | hc
    · exact Int.le_refl _
    · exact hafter c hc

theorem FirstBest.of_map {α : Type} {f : α → Best} {xs : List α} (h : FirstBest b (xs.map f)) :
    ∃ before x after, xs = before ++ x :: after ∧ f x = b ∧ ∀ y ∈ before, (f y).1 < b.1 := by
  obtain ⟨_, _, hsplit, hbefore, _⟩ := h
  obtain ⟨before, rest, rfl, rfl, hrest⟩ := List.map_eq_append_iff.mp hsplit
  obtain ⟨x, after, rfl, hx, _⟩ := List.map_eq_cons_iff.mp hrest
  exact ⟨before, x, after, rfl, hx, fun y hy => hbefore (f y) (List.mem_map_of_mem hy)⟩

theorem FirstBest.cons_of_lt (h : FirstBest b (c :: found)) (hlt : b₀.1 < c.1) :
    FirstBest b (b₀ :: c :: found) := by
  have hle := h.le List.mem_cons_self
  obtain ⟨before, after, hsplit, hbefore, hafter⟩ := h
  refine ⟨b₀ :: before, after, by rw [hsplit]; rfl, ?_, hafter⟩
  exact List.forall_mem_cons.mpr ⟨by omega, hbefore⟩

theorem FirstBest.insert_of_le (h : FirstBest b (b₀ :: found)) (hle : c.1 ≤ b₀.1) :
    FirstBest b (b₀ :: c :: found) := by
  obtain ⟨before, after, hsplit, hbefore, hafter⟩ := h
  cases before with
  | nil =>
    cases hsplit
    exact ⟨[], c :: found, rfl, by simp, List.forall_mem_cons.mpr ⟨hle, hafter⟩⟩
  | cons first before =>
    cases hsplit
    obtain ⟨hfirst, hbefore⟩ := List.forall_mem_cons.mp hbefore
    refine ⟨b₀ :: c :: before, after, rfl, ?_, hafter⟩
    exact List.forall_mem_cons.mpr ⟨hfirst, List.forall_mem_cons.mpr ⟨by omega, hbefore⟩⟩

theorem kept_some (b₀ : Best) (found : List Best) :
    ∃ b, kept (some b₀) found = some b ∧ FirstBest b (b₀ :: found) := by
  induction found generalizing b₀ with
  | nil => exact ⟨b₀, rfl, [], [], rfl, by simp, by simp⟩
  | cons c found ih =>
    obtain ⟨b, hkept, hbest⟩ := ih (better (some b₀) c)
    refine ⟨b, hkept, ?_⟩
    simp only [better] at hbest
    split at hbest
    next hlt => exact hbest.cons_of_lt hlt
    next hge => exact hbest.insert_of_le (Int.not_lt.mp hge)

/-- What is kept of candidates is the first of the best ones. -/
theorem kept_first_best (hne : found ≠ []) : ∃ b, kept none found = some b ∧ FirstBest b found := by
  cases found with
  | nil => exact absurd rfl hne
  | cons c found => exact kept_some c found

theorem FirstBest.of_kept (h : kept none found = some b) : FirstBest b found := by
  have hne : found ≠ [] := by
    rintro rfl
    cases h
  obtain ⟨b', hkept, hbest⟩ := kept_first_best hne
  cases h.symm.trans hkept
  exact hbest

end

section

variable {wiring : Wiring} {program : List Value}

/-- A search that ends has found the signals of all orders, or those before one that fails. -/
theorem searchFrom_cases {fuel : Nat} {orders : List (List Value)} {best : Option Best}
    {journal journal' : Journal} {result : Except Error Best}
    (h : searchFrom fuel wiring program orders best journal = some (result, journal')) :
    ∃ found : List Best, (∀ b ∈ found, Gives wiring program b.2 (.ok b.1)) ∧
      ((orders = found.map (·.2) ∧
          ((∃ b, kept best found = some b ∧ result = .ok b) ∨
            kept best found = none ∧ result = .error .noPhases)) ∨
        ∃ order rest e, orders = found.map (·.2) ++ order :: rest ∧
          Gives wiring program order (.error e) ∧ result = .error e) := by
  induction orders generalizing best journal with
  | nil =>
    refine ⟨[], by simp, .inl ⟨rfl, ?_⟩⟩
    cases best with
    | none =>
      cases h
      exact .inr ⟨rfl, rfl⟩
    | some b =>
      cases h
      exact .inl ⟨b, rfl, rfl⟩
  | cons order orders ih =>
    rw [searchFrom] at h
    cases hs : signalOf fuel wiring program order journal with
    | none => simp [hs] at h
    | some given =>
      obtain ⟨result₁, journal₁⟩ := given
      have hgives := gives_of_signalOf hs
      simp only [hs] at h
      cases result₁ with
      | error e =>
        cases h
        exact ⟨[], by simp, .inr ⟨order, orders, e, rfl, hgives, rfl⟩⟩
      | ok t =>
        obtain ⟨found, hfound, hend⟩ := ih h
        refine ⟨(t, order) :: found, List.forall_mem_cons.mpr ⟨hgives, hfound⟩, ?_⟩
        obtain ⟨rfl, hkept⟩ | ⟨failing, rest, e, rfl, hfails, hresult⟩ := hend
        · exact .inl ⟨rfl, hkept⟩
        · exact .inr ⟨failing, rest, e, rfl, hfails, hresult⟩

end

section

variable {wiring : Wiring} {program phases : List Value} {signal : Placing phases.length → Int}

/-- What a search takes a placing with a known signal for. -/
def candidate (phases : List Value) (signal : Placing phases.length → Int)
    (p : Placing phases.length) :
    Best :=
  (signal p, p.order phases)

theorem searchFrom_of_signals {placings : List (Placing phases.length)}
    (h : ∀ p ∈ placings, Gives wiring program (p.order phases) (.ok (signal p))) :
    ∃ enough, ∀ fuel ≥ enough, ∀ rest best journal, ∃ journal',
      searchFrom fuel wiring program (placings.map (Placing.order phases) ++ rest) best journal =
        searchFrom fuel wiring program rest (kept best (placings.map (candidate phases signal)))
          journal' := by
  induction placings with
  | nil => exact ⟨0, fun fuel _ rest best journal => ⟨journal, rfl⟩⟩
  | cons p placings ih =>
    obtain ⟨hp, hlater⟩ := List.forall_mem_cons.mp h
    obtain ⟨enough, hfirst⟩ := hp.signalOf
    obtain ⟨enough', hsearch⟩ := ih hlater
    refine ⟨max enough enough', fun fuel hf rest best journal => ?_⟩
    obtain ⟨journal₁, hs⟩ := hfirst fuel (by omega) journal
    obtain ⟨journal₂, hrest⟩ := hsearch fuel (by omega) rest
      (some (better best (candidate phases signal p)))
      (journal₁.push (.tried (p.order phases) (signal p)))
    refine ⟨journal₂, ?_⟩
    rw [List.map_cons, List.cons_append, searchFrom, hs]
    exact hrest

/-- Where every order gives a signal, the search has the greatest one, and the first order that
gives it. -/
theorem search_of_signals (h : ∀ p, Gives wiring program (p.order phases) (.ok (signal p))) :
    ∃ p, (∀ q, signal q ≤ signal p ∧ (q < p → signal q < signal p)) ∧
      ∃ enough, ∀ fuel ≥ enough, ∃ journal,
        search fuel wiring program phases = some (.ok (signal p, p.order phases), journal) := by
  have hne : (Placing.all phases.length).map (candidate phases signal) ≠ [] :=
    List.ne_nil_of_mem (List.mem_map_of_mem (Placing.mem_all ⟨_, .refl _⟩))
  obtain ⟨b, hkept, hbest⟩ := kept_first_best hne
  obtain ⟨before, p, after, hsplit, rfl, hbefore⟩ := hbest.of_map
  obtain ⟨enough, hsearch⟩ := searchFrom_of_signals fun p (_ : p ∈ Placing.all phases.length) => h p
  refine ⟨p, fun q => ⟨?_, fun hlt => ?_⟩, enough, fun fuel hf => ?_⟩
  · exact hbest.le (List.mem_map_of_mem q.mem_all)
  · exact hbefore q ((Placing.mem_front hsplit).mpr hlt)
  · obtain ⟨journal, hrest⟩ := hsearch fuel hf [] none #[]
    refine ⟨journal, ?_⟩
    rw [search, Placing.orderings_eq, ← List.append_nil (List.map _ _), hrest, hkept]
    rfl

def Fails (wiring : Wiring) (program order : List Value) : Prop :=
  ∃ e, Gives wiring program order (.error e)

/-- Where some order fails and those before it come to an end, there is a first one that fails. -/
theorem first_failing {p : Placing phases.length} (hp : Fails wiring program (p.order phases))
    (hends : ∀ q < p, ∃ result, Gives wiring program (q.order phases) result) :
    ∃ p₀ : Placing phases.length, Fails wiring program (p₀.order phases) ∧
      ∀ q < p₀, ∃ t, Gives wiring program (q.order phases) (.ok t) := by
  classical
  have hsome : ((Placing.all phases.length).find? fun q =>
      decide (Fails wiring program (q.order phases))).isSome :=
    List.find?_isSome.mpr ⟨p, p.mem_all, decide_eq_true hp⟩
  obtain ⟨p₀, hfind⟩ := Option.isSome_iff_exists.mp hsome
  obtain ⟨hfails, before, after, hsplit, hbefore⟩ := List.find?_eq_some_iff_append.mp hfind
  have hleast (q : Placing phases.length) (hq : q < p₀) :
      ¬ Fails wiring program (q.order phases) := by
    simpa using hbefore q ((Placing.mem_front hsplit).mpr hq)
  refine ⟨p₀, of_decide_eq_true hfails, fun q hq => ?_⟩
  obtain ⟨e | t, hgives⟩ := hends q (Placing.lt_of_lt_of_not_lt hq fun hlt => hleast p hlt hp)
  · exact absurd ⟨e, hgives⟩ (hleast q hq)
  · exact ⟨t, hgives⟩

/-- The failure of the first order that fails is the failure of the search. -/
theorem search_of_failure {p : Placing phases.length} {e : Error}
    (hp : Gives wiring program (p.order phases) (.error e))
    (hbefore : ∀ q < p, ∃ t, Gives wiring program (q.order phases) (.ok t)) :
    ∃ enough, ∀ fuel ≥ enough, ∃ journal,
      search fuel wiring program phases = some (.error e, journal) := by
  choose! signal hsignal using hbefore
  obtain ⟨before, after, hsplit⟩ := List.append_of_mem p.mem_all
  have horders : orderings phases = before.map (Placing.order phases) ++
      p.order phases :: after.map (Placing.order phases) := by
    rw [Placing.orderings_eq, hsplit, List.map_append, List.map_cons]
  obtain ⟨enough, hfound⟩ :=
    searchFrom_of_signals fun q hq => hsignal q ((Placing.mem_front hsplit).mp hq)
  obtain ⟨enough', hfails⟩ := hp.signalOf
  refine ⟨max enough enough', fun fuel hf => ?_⟩
  obtain ⟨journal, hrest⟩ :=
    hfound fuel (by omega) (p.order phases :: after.map (Placing.order phases)) none #[]
  obtain ⟨journal', hs⟩ := hfails fuel (by omega) journal
  exact ⟨journal', by rw [search, horders, hrest, searchFrom, hs]⟩

theorem search_found {fuel : Nat} {b : Best} {journal : Journal}
    (h : search fuel wiring program phases = some (.ok b, journal)) :
    b.2.Perm phases ∧ Gives wiring program b.2 (.ok b.1) ∧
      ∀ order, order.Perm phases → ∃ t, Gives wiring program order (.ok t) ∧ t ≤ b.1 := by
  obtain ⟨found, hfound, ⟨horders, ⟨b', hkept, hb⟩ | ⟨_, hb⟩⟩ | ⟨_, _, _, _, _, hb⟩⟩ :=
    searchFrom_cases h
  · cases hb
    have hbest := FirstBest.of_kept hkept
    have hmem := hbest.mem
    have hperm : b.2.Perm phases := by
      rw [← mem_orderings, horders]
      exact List.mem_map_of_mem hmem
    refine ⟨hperm, hfound b hmem, fun order horder => ?_⟩
    have hlisted := mem_orderings.mpr horder
    rw [horders] at hlisted
    obtain ⟨c, hc, rfl⟩ := List.mem_map.mp hlisted
    exact ⟨c.1, hfound c hc, hbest.le hc⟩
  · cases hb
  · cases hb

theorem search_finds_iff :
    (∃ fuel b journal, search fuel wiring program phases = some (.ok b, journal)) ↔
      ∀ order, order.Perm phases → ∃ t, Gives wiring program order (.ok t) := by
  constructor
  · rintro ⟨fuel, b, journal, h⟩ order horder
    obtain ⟨t, ht, _⟩ := (search_found h).2.2 order horder
    exact ⟨t, ht⟩
  · intro hall
    choose signal hsignal using fun p : Placing phases.length =>
      hall (p.order phases) (p.order_perm phases)
    obtain ⟨p, _, enough, hsearch⟩ := search_of_signals hsignal
    obtain ⟨journal, h⟩ := hsearch enough (Nat.le_refl enough)
    exact ⟨enough, _, journal, h⟩

end

/-- The search is an exact maximum in which the first of equal orders wins. If every order by
position gives a signal, the search has the greatest one, with an order that gives it, and every
order before that one gives less. If some order fails, and those before it come to an end, the
search has the failure of the first order that fails. -/
theorem search_first_wins (wiring : Wiring) (program phases : List Value) :
    ((∀ p : Placing phases.length, ∃ t, Gives wiring program (p.order phases) (.ok t)) →
      ∃ (p : Placing phases.length) (s : Int), Gives wiring program (p.order phases) (.ok s) ∧
        (∀ (q : Placing phases.length) (t : Int), Gives wiring program (q.order phases) (.ok t) →
          t ≤ s ∧ (q < p → t < s)) ∧
        ∃ enough, ∀ fuel ≥ enough, ∃ journal,
          search fuel wiring program phases = some (.ok (s, p.order phases), journal)) ∧
    ∀ (p : Placing phases.length) (e : Error), Gives wiring program (p.order phases) (.error e) →
      (∀ q < p, ∃ result, Gives wiring program (q.order phases) result) →
      ∃ (first : Placing phases.length) (e' : Error),
        Gives wiring program (first.order phases) (.error e') ∧
        (∀ q < first, ∃ t, Gives wiring program (q.order phases) (.ok t)) ∧
        ∃ enough, ∀ fuel ≥ enough, ∃ journal,
          search fuel wiring program phases = some (.error e', journal) := by
  constructor
  · intro hall
    choose signal hsignal using hall
    obtain ⟨p, hmost, hsearch⟩ := search_of_signals hsignal
    refine ⟨p, signal p, hsignal p, fun q t ht => ?_, hsearch⟩
    cases (hsignal q).unique ht
    exact hmost q
  · intro p e hp hends
    obtain ⟨first, ⟨e', hfirst⟩, hbefore⟩ := first_failing ⟨e, hp⟩ hends
    exact ⟨first, e', hfirst, hbefore, search_of_failure hfirst hbefore⟩

/-- A program that adds its phase setting to a signal. -/
def addPhase : List Value := [3, 11, 3, 12, 1, 11, 12, 12, 4, 12, 99].map .integer

/-- A program that emits its phase setting; if there is a signal, it first goes to the cell of that
number. -/
def goToPhase : List Value := [3, 10, 3, 11, 5, 11, 10, 4, 10, 99, 0, 0].map .integer

/-- Two orders with the same sum, of which the search keeps the one that it tries first; and six
orders of which the first gives a signal and all others fail, the second one at an unknown
operation. -/
theorem search_first_wins_addPhase :
    (∃ enough, ∀ fuel ≥ enough, ∃ journal,
      search fuel .serial addPhase ([2, 3].map .integer) =
        some (.ok (5, [2, 3].map .integer), journal)) ∧
    ∃ enough, ∀ fuel ≥ enough, ∃ journal,
      search fuel .serial goToPhase ([0, 1, 7].map .integer) =
        some (.error (.fault (.unknownOpcode 10)), journal) := by
  constructor
  · have hall (p : Placing 2) : Gives .serial addPhase (p.order ([2, 3].map .integer)) (.ok 5) := by
      have hsums : ∀ p ∈ Placing.all 2, (signalOf 20 .serial addPhase
          (p.order ([2, 3].map .integer)) #[]).map (·.1) = some (.ok 5) := by
        decide +kernel
      exact gives_of_map 20 (hsums p p.mem_all)
    obtain ⟨p, s, hs, hmost, enough, hsearch⟩ :=
      (search_first_wins .serial addPhase ([2, 3].map .integer)).1 fun p => ⟨5, hall p⟩
    cases hs.unique (hall p)
    have hplacings : ∀ p ∈ Placing.all 2, ¬ (⟨[0, 1], .refl _⟩ : Placing 2) < p →
        p.order ([2, 3].map Value.integer) = [2, 3].map Value.integer := by
      simp only [Placing.lt_iff]
      decide +kernel
    have horder := hplacings p p.mem_all fun hlt =>
      absurd ((hmost _ 5 (hall _)).2 hlt) (lt_irrefl 5)
    rw [horder] at hsearch
    exact ⟨enough, hsearch⟩
  · have hfirst : Gives .serial goToPhase ([0, 1, 7].map .integer) (.ok 7) :=
      gives_of_map 20 (by decide +kernel)
    let second : Placing 3 := ⟨[0, 2, 1], by decide⟩
    let third : Placing 3 := ⟨[1, 0, 2], by decide⟩
    have hsecond : Gives .serial goToPhase (second.order ([0, 1, 7].map .integer))
        (.error (.fault (.unknownOpcode 10))) := gives_of_map 20 (by decide +kernel)
    have hthird : Gives .serial goToPhase (third.order ([0, 1, 7].map .integer))
        (.error (.inputExhausted .emptyQueue)) := gives_of_map 20 (by decide +kernel)
    have hplacings : ∀ p ∈ Placing.all 3, second < p ∨
        p.order ([0, 1, 7].map Value.integer) = [0, 1, 7].map .integer ∨
        p.order ([0, 1, 7].map Value.integer) = second.order ([0, 1, 7].map .integer) := by
      simp only [Placing.lt_iff]
      decide +kernel
    have hnext : ∀ q ∈ Placing.all 3, second < q → ¬ q < third := by
      simp only [Placing.lt_iff]
      decide +kernel
    have hends : ∀ q < third, ∃ result,
        Gives .serial goToPhase (q.order ([0, 1, 7].map .integer)) result := by
      intro q hq
      rcases hplacings q q.mem_all with hlt | horder | horder
      · exact absurd hq (hnext q q.mem_all hlt)
      · rw [horder]
        exact ⟨_, hfirst⟩
      · rw [horder]
        exact ⟨_, hsecond⟩
    obtain ⟨p, e, hp, hbefore, enough, hsearch⟩ :=
      (search_first_wins .serial goToPhase ([0, 1, 7].map .integer)).2 third _ hthird hends
    have he : e = .fault (.unknownOpcode 10) := by
      rcases hplacings p p.mem_all with hlt | horder | horder
      · obtain ⟨t, ht⟩ := hbefore second hlt
        cases ht.unique hsecond
      · rw [horder] at hp
        cases hp.unique hfirst
      · rw [horder] at hp
        cases hp.unique hsecond
        rfl
    rw [he] at hsearch
    exact ⟨enough, hsearch⟩

/-- The best signal does not depend on how the phase settings are listed. For two lists of the same
ones a search finds a signal for both or for none, the signals are equal, and each order found gives
its signal. -/
theorem search_rearranged (wiring : Wiring) (program : List Value) {phases phases' : List Value}
    (h : phases.Perm phases') :
    ((∃ fuel b journal, search fuel wiring program phases = some (.ok b, journal)) ↔
      ∃ fuel b journal, search fuel wiring program phases' = some (.ok b, journal)) ∧
    ∀ fuel b journal fuel' b' journal', search fuel wiring program phases = some (.ok b, journal) →
      search fuel' wiring program phases' = some (.ok b', journal') →
      b.1 = b'.1 ∧ (b.2.Perm phases ∧ Gives wiring program b.2 (.ok b.1)) ∧
        b'.2.Perm phases' ∧ Gives wiring program b'.2 (.ok b'.1) := by
  constructor
  · rw [search_finds_iff, search_finds_iff]
    exact forall_congr' fun order => by rw [h.congr_right]
  · intro fuel b journal fuel' b' journal' hs hs'
    obtain ⟨hperm, hgives, hmost⟩ := search_found hs
    obtain ⟨hperm', hgives', hmost'⟩ := search_found hs'
    refine ⟨?_, ⟨hperm, hgives⟩, hperm', hgives'⟩
    obtain ⟨t, ht, hle⟩ := hmost b'.2 (hperm'.trans h.symm)
    obtain ⟨t', ht', hle'⟩ := hmost' b.2 (hperm.trans h)
    cases hgives'.unique ht
    cases hgives.unique ht'
    exact Int.le_antisymm hle' hle

/-- A program that appends its phase setting to the digits of a signal. -/
def appendDigit : List Value :=
  [3, 15, 3, 16, 1002, 16, 10, 16, 1, 16, 15, 15, 4, 15, 99, 0, 0].map .integer

theorem search_rearranged_appendDigit :
    ∃ fuel b journal,
      search fuel .serial appendDigit ([2, 1, 0].map .integer) = some (.ok b, journal) ∧
      b.1 = 210 := by
  have hperm : ([0, 2, 1].map Value.integer).Perm ([2, 1, 0].map .integer) := by decide
  have hbest : (search 20 .serial appendDigit ([0, 2, 1].map .integer)).map (·.1) =
      some (.ok (210, [2, 1, 0].map .integer)) := by
    decide +kernel
  obtain ⟨⟨_, journal⟩, h, rfl⟩ := Option.map_eq_some_iff.mp hbest
  obtain ⟨hfinds, hbest⟩ := search_rearranged .serial appendDigit hperm
  obtain ⟨fuel, b', journal', h'⟩ := hfinds.mp ⟨20, _, journal, h⟩
  exact ⟨fuel, b', journal', h', (hbest 20 _ journal fuel b' journal' h h').1.symm⟩

end Chain

end Intcode
