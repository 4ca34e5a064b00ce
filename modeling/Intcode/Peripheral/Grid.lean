namespace Intcode

structure Position where
  x : Int
  y : Int
deriving DecidableEq, Repr

namespace Position

def origin : Position := ⟨0, 0⟩

/-- Positions are ordered by column, then by row. -/
def before (p q : Position) : Bool := p.x < q.x || (p.x = q.x && p.y < q.y)

def shift (p : Position) (dx dy : Int) : Position := ⟨p.x + dx, p.y + dy⟩

end Position

structure Grid (α : Type) where
  entries : List (Position × α) := []
deriving DecidableEq, Repr

namespace Grid

variable {α : Type}

def size (g : Grid α) : Nat := g.entries.length

def get? (g : Grid α) (p : Position) : Option α := g.entries.lookup p

def setIn (p : Position) (v : α) : List (Position × α) → List (Position × α)
  | [] => [(p, v)]
  | (q, w) :: rest =>
    if p = q then (p, v) :: rest
    else if p.before q then (p, v) :: (q, w) :: rest
    else (q, w) :: setIn p v rest

def set (g : Grid α) (p : Position) (v : α) : Grid α := ⟨setIn p v g.entries⟩

theorem lookup_setIn (p q : Position) (v : α) (entries : List (Position × α)) :
    (setIn p v entries).lookup q = if p = q then some v else entries.lookup q := by
  induction entries with
  | nil =>
    by_cases h : p = q
    · simp [setIn, h]
    · simp [setIn, List.lookup_cons, h, beq_false_of_ne (Ne.symm h)]
  | cons e rest ih =>
    obtain ⟨r, w⟩ := e
    simp only [setIn]
    split
    next h =>
      subst h
      by_cases hq : p = q
      · simp [hq]
      · simp [List.lookup_cons, hq, beq_false_of_ne (Ne.symm hq)]
    next hr =>
      split
      next =>
        by_cases hq : p = q
        · simp [hq]
        · simp [List.lookup_cons, hq, beq_false_of_ne (Ne.symm hq)]
      next =>
        by_cases hq : p = q
        · subst hq
          simp [List.lookup_cons, beq_false_of_ne hr, ih]
        · simp [List.lookup_cons, hq, ih]

theorem get?_set (g : Grid α) (p q : Position) (v : α) :
    (g.set p v).get? q = if p = q then some v else g.get? q :=
  lookup_setIn p q v g.entries

end Grid

end Intcode
