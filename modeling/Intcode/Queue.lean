import Intcode.Machine.Execute

namespace Intcode

structure Queue where
  pending : List Value := []
deriving DecidableEq, Repr

namespace Queue

def inject (q : Queue) (values : List Value) : Queue := ⟨q.pending ++ values⟩

def size (q : Queue) : Nat := q.pending.length

def hasData (q : Queue) : Bool := !q.pending.isEmpty

def pop (q : Queue) : Except Refusal Value × Queue :=
  match q.pending with
  | [] => (.error (.exhausted .emptyQueue), q)
  | v :: rest => (.ok v, ⟨rest⟩)

def host : Host Queue where
  take := pop

@[simp] theorem pending_inject (q : Queue) (values : List Value) :
    (q.inject values).pending = q.pending ++ values := rfl

end Queue

end Intcode
