import Intcode.Monitor.Session
import Intcode.Proofs.Record

namespace Intcode

/-- The values that a command queues: all its words, if each of them is a number. -/
def Command.queued : Command → List Value
  | .call .input argument =>
    match Text.words argument with
    | .error _ => []
    | .ok words =>
      match words.mapM fun word => Numeral.readLiteral (Text.trim word.toList) with
      | .error _ => []
      | .ok numbers => numbers.map .integer
  | _ => []

/-- Tells the commands that neither execute nor edit the machine or its queue. -/
def Command.inspects : Command → Bool
  | .call verb _ => !([.input, .step, .run, .continue_, .setmem] : List Verb).contains verb
  | _ => true

def Command.lists : Command → Bool
  | .call .disasm _ | .call .dump _ => true
  | _ => false

def Command.writes : Command → Bool
  | .call .setmem _ => true
  | _ => false

/-- Tries one instruction and notes what it emits. -/
def Monitor.attempt (m : Monitor) : Monitor :=
  { m.stepInstruction.2 with outputs := m.outputs ++ Machine.emissionOf m.stepInstruction.1 }

theorem Monitor.attempt_eq {m after : Monitor} {result : Except Error (Option Int)}
    (hs : m.stepInstruction = (result, after)) :
    m.attempt = { after with outputs := after.outputs ++ Machine.emissionOf result } := by
  have houtputs : after.outputs = m.outputs := (congrArg (fun r => r.2.outputs) hs).symm
  simp only [attempt, hs, houtputs]

theorem Trouble.breakdown?_machine {e : Error} {b : Breakdown}
    (h : (Trouble.machine e).breakdown? = some b) :
    ∃ value, e = .notInteger value ∧ b = .notInteger value := by
  cases e with
  | notInteger value =>
    cases h
    exact ⟨value, rfl, rfl⟩
  | fault | halted | inputExhausted | numeral | rejected | noPhases | unsupported => cases h

theorem Trouble.breakdown?_ofFault (f : Fault) :
    (Trouble.machine (.ofFault f)).breakdown? = none := by
  unfold Error.ofFault
  split <;> rfl

namespace Session

open Trouble (breakdown?_machine breakdown?_ofFault)

variable {α β : Type}

/-- The monitor that an action leaves, whether or not it runs into trouble. -/
def leaves (act : Session α) (c : Console) : Monitor :=
  match act.run c with
  | .ok _ c' => c'.monitor
  | .error _ c' => c'.monitor

theorem run_bind_ok {act : Session α} {f : α → Session β} {c c' : Console} {x : α}
    (h : act.run c = .ok x c') : (act >>= f).run c = (f x).run c' := by
  rw [EStateM.run_bind, h]

theorem run_bind_error {act : Session α} {f : α → Session β} {c c' : Console} {t : Trouble}
    (h : act.run c = .error t c') : (act >>= f).run c = .error t c' := by
  rw [EStateM.run_bind, h]

theorem leaves_bind_ok {act : Session α} {f : α → Session β} {c c' : Console} {x : α}
    (h : act.run c = .ok x c') : leaves (act >>= f) c = leaves (f x) c' := by
  unfold leaves
  rw [run_bind_ok h]

theorem leaves_bind_error {act : Session α} {f : α → Session β} {c c' : Console} {t : Trouble}
    (h : act.run c = .error t c') : leaves (act >>= f) c = c'.monitor := by
  unfold leaves
  rw [run_bind_error h]

theorem leaves_bind_pure (act : Session α) (x : β) (c : Console) :
    leaves (act >>= fun _ => pure x) c = leaves act c := by
  unfold leaves
  rw [EStateM.run_bind]
  cases act.run c <;> rfl

/-- From a monitor with the property `P` the action leaves one with it, whether or not it runs into
trouble, and it breaks down only as `B` allows. -/
structure Keeps (P : Monitor → Prop) (B : Breakdown → Prop) (act : Session α) : Prop where
  kept : ∀ c, P c.monitor → P (act.leaves c)
  breaks : ∀ c t c' b, P c.monitor → act.run c = .error t c' → t.breakdown? = some b → B b

theorem leaves_of_keeps {m : Monitor} {act : Session α} (h : Keeps (· = m) (fun _ => True) act)
    {c : Console} (hc : c.monitor = m) : act.leaves c = m := h.kept c hc

section

variable {P : Monitor → Prop} {B : Breakdown → Prop}

theorem Keeps.pure (x : α) : Keeps P B (Pure.pure x : Session α) := by
  refine ⟨fun _ hc => hc, fun c t c' b _ h => ?_⟩
  cases h

theorem Keeps.trouble {t : Trouble} (ht : ∀ b, t.breakdown? = some b → B b) :
    Keeps P B (throw t : Session α) := by
  refine ⟨fun _ hc => hc, fun c t' c' b _ h => ?_⟩
  cases h
  exact ht b

theorem Keeps.reported {t : Trouble} (ht : t.breakdown? = none) :
    Keeps P B (throw t : Session α) := by
  refine .trouble fun b hb => ?_
  rw [ht] at hb
  cases hb

theorem Keeps.say (line : String) : Keeps P B (say line) := by
  refine ⟨fun _ hc => hc, fun c t c' b _ h => ?_⟩
  cases h

theorem Keeps.update {f : Monitor → Monitor} (hf : ∀ m, P m → P (f m)) : Keeps P B (update f) := by
  refine ⟨fun c hc => hf c.monitor hc, fun c t c' b _ h => ?_⟩
  cases h

theorem Keeps.bind {act : Session α} {f : α → Session β} (ha : Keeps P B act)
    (hf : ∀ x, Keeps P B (f x)) : Keeps P B (act >>= f) := by
  have hok {c c₁ : Console} {x : α} (hc : P c.monitor) (hrun : act.run c = .ok x c₁) :
      P c₁.monitor := by
    have hleft := ha.kept c hc
    rwa [leaves, hrun] at hleft
  refine ⟨fun c hc => ?_, fun c t c' b hc h hb => ?_⟩
  · cases hrun : act.run c with
    | ok x c₁ =>
      rw [leaves_bind_ok hrun]
      exact (hf x).kept c₁ (hok hc hrun)
    | error t c₁ =>
      have hleft := ha.kept c hc
      rw [leaves_bind_error hrun]
      rwa [leaves, hrun] at hleft
  · cases hrun : act.run c with
    | ok x c₁ =>
      rw [run_bind_ok hrun] at h
      exact (hf x).breaks c₁ t c' b (hok hc hrun) h hb
    | error t' c₁ =>
      rw [run_bind_error hrun] at h
      cases h
      exact ha.breaks c t c' b hc hrun hb

theorem Keeps.look {f : Monitor → Session α} (hf : ∀ m, P m → Keeps P B (f m)) :
    Keeps P B (monitor >>= f) := by
  have hread (c : Console) : monitor.run c = .ok c.monitor c := rfl
  refine ⟨fun c hc => ?_, fun c t c' b hc h hb => ?_⟩
  · rw [leaves_bind_ok (hread c)]
    exact (hf c.monitor hc).kept c hc
  · rw [run_bind_ok (hread c)] at h
    exact (hf c.monitor hc).breaks c t c' b hc h hb

theorem Keeps.ite {p : Prop} [Decidable p] {act other : Session α} (ha : Keeps P B act)
    (ho : Keeps P B other) : Keeps P B (if p then act else other) := by
  split
  · exact ha
  · exact ho

theorem Keeps.ofNumeral (r : Except NumeralError α) : Keeps P B (ofNumeral r) := by
  cases r with
  | ok v => exact .pure v
  | error e => exact .reported rfl

theorem Keeps.mapM {f : α → Session β} {xs : List α} (hf : ∀ x ∈ xs, Keeps P B (f x)) :
    Keeps P B (xs.mapM f) := by
  induction xs with
  | nil => exact .pure _
  | cons x xs ih =>
    rw [List.mapM_cons]
    have hrest := ih fun y hy => hf y (List.mem_cons_of_mem x hy)
    exact .bind (hf x List.mem_cons_self) fun y => .bind hrest fun ys => .pure _

theorem Keeps.parseAddress (s : String) : Keeps P B (parseAddress s) := by
  unfold Session.parseAddress
  exact .look fun m _ => .ite (.pure _) (.ite (.pure _) (.ofNumeral _))

theorem Keeps.arguments (argument : String) : Keeps P B (arguments argument) := by
  unfold Session.arguments
  split
  · exact .pure _
  · exact .reported rfl

theorem Keeps.sayEach (ns : List Int) : Keeps P B (sayEach ns) := by
  induction ns with
  | nil => exact .pure _
  | cons n ns ih => exact .bind (.ofNumeral _) fun text => .bind (.say _) fun _ => ih

theorem le_of_mem_addresses {first a : Int} {count : Nat} (h : a ∈ addresses first count) :
    first ≤ a := by
  obtain ⟨k, _, rfl⟩ := List.mem_map.mp h
  omega

section

variable {m : Memory} {first : Int}

theorem Keeps.cells (hi : ∀ a ≥ first, ∀ e, m.getIndexed a = .error e → B (.index e))
    (count : Nat) : Keeps P B ((addresses first count).mapM (cell m)) := by
  refine .mapM fun a ha => ?_
  unfold cell
  split
  next n => exact .ofNumeral _
  next e he =>
    refine .trouble fun b hb => ?_
    cases hb
    exact hi a (le_of_mem_addresses ha) e he

theorem Keeps.dumpRows (hi : ∀ a ≥ first, ∀ e, m.getIndexed a = .error e → B (.index e))
    (rows : Nat) (stop : Int) : Keeps P B (dumpRows m rows first stop) := by
  induction rows generalizing first with
  | zero => exact .pure _
  | succ rows ih =>
    have hrest : Keeps P B (Session.dumpRows m rows (first + rowLength) stop) :=
      ih fun a ha => hi a (by omega)
    exact .bind (.cells hi _) fun cells => .bind (.ofNumeral _) fun label =>
      .bind (.say _) fun _ => hrest

theorem Keeps.disassemble (hi : ∀ a ≥ first, ∀ e, m.getIndexed a = .error e → B (.index e))
    (pc : Int) (count : Nat) : Keeps P B (disassemble m pc count first) := by
  induction count generalizing first with
  | zero => exact .pure _
  | succ count ih =>
    unfold Session.disassemble
    refine .ite (.pure _) (.bind (.ofNumeral _) fun entry => ?_)
    obtain ⟨text, width⟩ := entry
    have hrest : Keeps P B (Session.disassemble m pc count (first + width)) :=
      ih fun a ha => hi a (by omega)
    exact .bind (.cells hi _) fun cells => .bind (.ofNumeral _) fun label =>
      .bind (.say _) fun _ => hrest

end

theorem Keeps.dumpCommand (hi : ∀ e, B (.index e)) (argument : String) :
    Keeps P B (dumpCommand argument) := by
  have hrows (m : Memory) (rows : Nat) (first stop : Int) :
      Keeps P B (Session.dumpRows m rows first stop) :=
    .dumpRows (fun _ _ e _ => hi e) rows stop
  unfold Session.dumpCommand
  refine .bind (.arguments argument) fun words => ?_
  simp only
  split
  · refine .bind (.parseAddress _) fun first => .look fun m _ => ?_
    split
    · exact .bind (.ofNumeral _) fun count => hrows _ _ _ _
    · exact .bind (.pure _) fun count => hrows _ _ _ _
  · exact .bind (.pure _) fun first => .look fun m _ => .bind (.pure _) fun count => hrows _ _ _ _

theorem Keeps.disassembleCommand (hi : ∀ e, B (.index e)) (argument : String) :
    Keeps P B (disassembleCommand argument) := by
  have hlines (m : Memory) (pc : Int) (count : Nat) (first : Int) :
      Keeps P B (Session.disassemble m pc count first) :=
        .disassemble (fun _ _ e _ => hi e) pc count
  unfold Session.disassembleCommand
  refine .bind (.arguments argument) fun words => .look fun m _ => ?_
  simp only
  split
  · refine .bind (.parseAddress _) fun first => ?_
    split
    · exact .bind (.ofNumeral _) fun count => hlines _ _ _ _
    · exact .bind (.pure _) fun count => hlines _ _ _ _
  · exact .bind (.pure _) fun first => .bind (.pure _) fun count => hlines _ _ _ _

theorem Keeps.registersCommand : Keeps P B registersCommand :=
  .look fun _ _ => .bind (.ofNumeral _) fun _ => .say _

theorem Keeps.outputCommand : Keeps P B outputCommand := by
  unfold Session.outputCommand
  exact .look fun m _ => .ite (.say _) (.bind (.ofNumeral _) fun _ => .say _)

theorem Keeps.statusCommand : Keeps P B statusCommand :=
  .bind .registersCommand fun _ => .look fun _ _ => .say _

theorem Keeps.breakCommand (hb : ∀ m breakpoints, P m → P { m with breakpoints })
    (argument : String) : Keeps P B (breakCommand argument) := by
  unfold Session.breakCommand
  refine .ite ?_ ?_
  · exact .look fun m _ => .ite (.say _) (.sayEach _)
  · exact .bind (.parseAddress _) fun a => .bind (.update fun m hm => hb m _ hm) fun _ =>
      .bind (.ofNumeral _) fun text => .say _

theorem Keeps.unbreakCommand (hb : ∀ m breakpoints, P m → P { m with breakpoints })
    (argument : String) : Keeps P B (unbreakCommand argument) := by
  unfold Session.unbreakCommand
  refine .ite ?_ ?_
  · exact .bind (.update fun m hm => hb m _ hm) fun _ => .say _
  · exact .bind (.parseAddress _) fun a => .bind (.update fun m hm => hb m _ hm) fun _ =>
      .bind (.ofNumeral _) fun text => .say _

theorem Keeps.carryOut_of_inspects (hb : ∀ m breakpoints, P m → P { m with breakpoints })
    {command : Command} (hi : command.lists = true → ∀ e, B (.index e))
    (hc : command.inspects = true) : Keeps P B (carryOut command) := by
  cases command with
  | nothing => exact .pure _
  | unknown line => exact .bind (.say _) fun _ => .pure _
  | call verb argument =>
    cases verb with
    | input | step | run | continue_ | setmem => cases hc
    | bp => exact .bind (.breakCommand hb argument) fun _ => .pure _
    | bpd => exact .bind (.unbreakCommand hb argument) fun _ => .pure _
    | disasm => exact .bind (.disassembleCommand (hi rfl) argument) fun _ => .pure _
    | dump => exact .bind (.dumpCommand (hi rfl) argument) fun _ => .pure _
    | endOfInput => exact .bind (.say _) fun _ => .pure _
    | help => exact .bind (.say _) fun _ => .pure _
    | output => exact .bind .outputCommand fun _ => .pure _
    | quit => exact .pure _
    | regs => exact .bind .registersCommand fun _ => .pure _
    | status => exact .bind .statusCommand fun _ => .pure _

theorem Keeps.inputCommand
    (hq : ∀ m (numbers : List Int), P m →
      P { m with queue := m.queue.inject (numbers.map .integer) })
    (argument : String) : Keeps P B (inputCommand argument) := by
  unfold Session.inputCommand
  refine .bind (.arguments argument) fun words => ?_
  split
  · exact .look fun m _ => .bind (.ofNumeral _) fun texts => .say _
  · exact .bind (.mapM fun word _ => .ofNumeral _) fun numbers =>
      .bind (.update fun m hm => hq m numbers hm) fun _ => .look fun m _ => .say _

theorem Keeps.writeCell (hw : ∀ m machine, P m → P { m with machine }) (a n : Int) :
    Keeps P B (writeCell a n) := by
  unfold Session.writeCell
  refine .look fun m _ => ?_
  by_cases ha : a < 0
  · simp only [Machine.write_of_neg _ ha]
    exact .bind (.update fun m hm => hw m _ hm) fun _ => .reported (breakdown?_ofFault _)
  · simp only [Machine.write_integer _ (Int.not_lt.mp ha)]
    exact .bind (.update fun m hm => hw m _ hm) fun _ => .pure _

theorem Keeps.setCommand (hw : ∀ m machine, P m → P { m with machine }) (argument : String) :
    Keeps P B (setCommand argument) := by
  have hcells (a : Int) (words : List String) : Keeps P B (writeCells a words) := by
    induction words generalizing a with
    | nil => exact .pure _
    | cons word words ih =>
      exact .bind (.ofNumeral _) fun n => .bind (.writeCell hw a n) fun _ => ih _
  unfold Session.setCommand
  refine .bind (.arguments argument) fun words => ?_
  split
  · exact .bind (.parseAddress _) fun a => .bind (hcells a _) fun _ =>
      .bind (.ofNumeral _) fun text => .say _
  · exact .say _

/-- To execute is to attempt one instruction, however much of it can then be said. -/
theorem leaves_execute (c : Console) : execute.leaves c = c.monitor.attempt := by
  have hread : Session.monitor.run c = .ok c.monitor c := rfl
  unfold execute
  rw [leaves_bind_ok hread]
  rcases hs : c.monitor.stepInstruction with ⟨result, after⟩
  have hnote : (update fun _ => after).run c = .ok () { c with monitor := after } := rfl
  simp only
  rw [leaves_bind_ok hnote]
  have hsilent : { after with outputs := after.outputs ++ [] } = after := by
    rw [List.append_nil]
  rw [Monitor.attempt_eq hs]
  split
  next why =>
    refine Eq.trans ?_ hsilent.symm
    exact leaves_of_keeps (.bind (.ofNumeral _) fun pc => .bind (.say _) fun _ => .pure _) rfl
  next cause => exact hsilent.symm
  next f => exact hsilent.symm
  next e _ _ _ => exact hsilent.symm
  next output =>
    split
    next v =>
      have hemit : (update fun m => { m with outputs := m.outputs ++ [v] }).run
          { c with monitor := after } =
          .ok () { c with monitor := { after with outputs := after.outputs ++ [v] } } := rfl
      rw [leaves_bind_ok hemit]
      exact leaves_of_keeps (.bind (.ofNumeral _) fun text => .bind (.say _) fun _ =>
        .ite (.bind (.say _) fun _ => .pure _) (.pure _)) rfl
    next =>
      refine Eq.trans ?_ hsilent.symm
      exact leaves_of_keeps (.ite (.bind (.say _) fun _ => .pure _) (.pure _)) rfl

theorem execute_breaks {c c' : Console} {t : Trouble} {b : Breakdown}
    (h : execute.run c = .error t c') (hb : t.breakdown? = some b) :
    ∃ value, c.monitor.stepInstruction.1 = .error (.notInteger value) ∧ b = .notInteger value := by
  have hread : Session.monitor.run c = .ok c.monitor c := rfl
  unfold execute at h
  rw [run_bind_ok hread] at h
  rcases hs : c.monitor.stepInstruction with ⟨result, after⟩
  rw [hs] at h
  refine Keeps.breaks (P := fun _ => True)
    (B := fun b => ∃ value, result = .error (.notInteger value) ∧ b = .notInteger value)
    (.bind (.update fun _ _ => trivial) fun _ => ?_) c t c' b trivial h hb
  simp only
  split
  next why => exact .bind (.ofNumeral _) fun pc => .bind (.say _) fun _ => .pure _
  next cause => exact .bind (.say _) fun _ => .pure _
  next f => exact .bind (.say _) fun _ => .pure _
  next e _ _ _ =>
    refine .trouble fun b' hb' => ?_
    obtain ⟨value, rfl, rfl⟩ := breakdown?_machine hb'
    exact ⟨value, rfl, rfl⟩
  next output =>
    split
    next v =>
      exact .bind (.update fun _ _ => trivial) fun _ => .bind (.ofNumeral _) fun text =>
        .bind (.say _) fun _ => .ite (.bind (.say _) fun _ => .pure _) (.pure _)
    next => exact .ite (.bind (.say _) fun _ => .pure _) (.pure _)

/-- Every attempt keeps the property, and a value is refused only where that may break the
session. -/
structure Attempting (P : Monitor → Prop) (B : Breakdown → Prop) : Prop where
  kept : ∀ m, P m → P m.attempt
  refused : ∀ m value, P m → m.stepInstruction.1 = .error (.notInteger value) →
    B (.notInteger value)

theorem Keeps.execute (ha : Attempting P B) : Keeps P B execute := by
  refine ⟨fun c hc => ?_, fun c t c' b hc h hb => ?_⟩
  · rw [leaves_execute]
    exact ha.kept c.monitor hc
  · obtain ⟨value, hr, rfl⟩ := execute_breaks h hb
    exact ha.refused c.monitor value hc hr

theorem Keeps.stepUpTo (ha : Attempting P B) (count : Nat) : Keeps P B (stepUpTo count) := by
  induction count with
  | zero => exact .pure _
  | succ count ih =>
    exact .look fun m _ => .bind (.ofNumeral _) fun entry => .bind (.ofNumeral _) fun label =>
      .bind (.say _) fun _ => .bind (.execute ha) fun goesOn => .ite ih (.pure _)

theorem Keeps.runUpTo (ha : Attempting P B) (count : Nat) (first : Bool) :
    Keeps P B (runUpTo count first) := by
  induction count generalizing first with
  | zero => exact .pure _
  | succ count ih =>
    refine .look fun m _ => .ite ?_ ?_
    · exact .bind (.ofNumeral _) fun pc => .bind (.say _) fun _ => .pure _
    · exact .bind (.execute ha) fun goesOn => .ite (ih false) (.pure _)

theorem Keeps.countOr (fallback : Int) (argument : String) :
    Keeps P B (countOr fallback argument) := by
  unfold Session.countOr
  exact .ite (.pure _) (.ofNumeral _)

theorem Keeps.stepCommand (ha : Attempting P B) (argument : String) :
    Keeps P B (stepCommand argument) :=
  .bind (.countOr _ _) fun _ => .stepUpTo ha _

theorem Keeps.runCommand (ha : Attempting P B) (argument : String) :
    Keeps P B (runCommand argument) :=
  .bind (.countOr _ _) fun _ => .bind (.runUpTo ha _ _) fun _ =>
    .ite (.bind (.ofNumeral _) fun _ => .say _) (.pure _)

end

theorem run_arguments (argument : String) (c : Console) :
    (arguments argument).run c =
      match Text.words argument with
      | .ok words => .ok words c
      | .error e => .error (.words e) c := by
  unfold arguments
  cases Text.words argument <;> rfl

theorem run_ofNumeral (r : Except NumeralError α) (c : Console) :
    (ofNumeral r).run c =
      match r with
      | .ok x => .ok x c
      | .error e => .error (.numeral e) c := by
  cases r <;> rfl

theorem mapM_ofNumeral (f : α → Except NumeralError β) (xs : List α) :
    xs.mapM (fun x => ofNumeral (f x)) = ofNumeral (xs.mapM f) := by
  induction xs with
  | nil => rfl
  | cons x xs ih =>
    rw [List.mapM_cons, List.mapM_cons, ih]
    cases f x with
    | error e => rfl
    | ok y => cases xs.mapM f <;> rfl

/-- An input line adds to the queue what it queues, and changes nothing else. -/
theorem leaves_inputCommand (argument : String) (c : Console) :
    (inputCommand argument).leaves c =
      { c.monitor with
        queue := c.monitor.queue.inject (Command.queued (.call .input argument)) } := by
  have hnone : { c.monitor with queue := c.monitor.queue.inject [] } = c.monitor := by
    simp [Queue.inject]
  have hread := run_arguments argument c
  unfold inputCommand
  simp only [Command.queued]
  generalize Text.words argument = cut at hread ⊢
  cases cut with
  | error e => rw [leaves_bind_error hread, hnone]
  | ok words =>
    rw [leaves_bind_ok hread]
    cases words with
    | nil =>
      refine Eq.trans ?_ hnone.symm
      exact leaves_of_keeps (.look fun m _ => .bind (.ofNumeral _) fun texts => .say _) rfl
    | cons word words =>
      have hparse : (word :: words).mapM parseNumber = ofNumeral ((word :: words).mapM fun word =>
          Numeral.readLiteral (Text.trim word.toList)) := mapM_ofNumeral _ _
      simp only [List.isEmpty_cons, Bool.false_eq_true, if_false]
      rw [hparse]
      generalize ((word :: words).mapM fun word =>
        Numeral.readLiteral (Text.trim word.toList)) = read
      cases read with
      | error e => rw [leaves_bind_error (run_ofNumeral _ c), hnone]
      | ok numbers =>
        have hqueue :
          (update fun m => { m with queue := m.queue.inject (numbers.map .integer) }).run
            c = .ok () { c with monitor :=
              { c.monitor with queue := c.monitor.queue.inject (numbers.map .integer) } } := rfl
        rw [leaves_bind_ok (run_ofNumeral _ c), leaves_bind_ok hqueue]
        exact leaves_of_keeps (.look fun m _ => .say _) rfl

end Session

namespace Monitor

theorem answer_monitor (line : String) (c : Console) :
    (answer line c).2.monitor = (Session.carryOut (Command.ofLine line)).leaves c := by
  unfold answer Session.leaves
  cases (Session.carryOut (Command.ofLine line)).run c with
  | ok stop c' => rfl
  | error t c' =>
    simp only
    cases t.breakdown? <;> rfl

theorem onLine_monitor (line : String) (m : Monitor) :
    (onLine line m).2.1 = (Session.carryOut (Command.ofLine line)).leaves { monitor := m } :=
  answer_monitor line { monitor := m }

end Monitor

end Intcode
