namespace Intcode.Text

/-- The pieces between the separators; a text without separators is one piece. -/
def pieces (separator : Char) : List Char → List (List Char)
  | [] => [[]]
  | c :: rest =>
    if c = separator then [] :: pieces separator rest
    else
      match pieces separator rest with
      | [] => [[c]]
      | piece :: others => (c :: piece) :: others

theorem pieces_ne_nil (separator : Char) (cs : List Char) : pieces separator cs ≠ [] := by
  cases cs with
  | nil => simp [pieces]
  | cons c rest =>
    unfold pieces
    split
    next => simp
    next => split <;> simp

theorem pieces_of_not_mem {separator : Char} {cs : List Char} (h : separator ∉ cs) :
    pieces separator cs = [cs] := by
  induction cs with
  | nil => rfl
  | cons c rest ih =>
    simp only [List.mem_cons, not_or] at h
    simp [pieces, Ne.symm h.1, ih h.2]

theorem pieces_append {separator : Char} {cs : List Char} (rest : List Char)
    (h : separator ∉ cs) :
    pieces separator (cs ++ separator :: rest) = cs :: pieces separator rest := by
  induction cs with
  | nil => simp [pieces]
  | cons c cs ih =>
    simp only [List.mem_cons, not_or] at h
    simp [pieces, Ne.symm h.1, ih h.2]

/-- What holds of a text without separators, and is handed on from a text to one with a further
piece before it, holds of every text. -/
theorem pieces_induction (separator : Char) {motive : List Char → Prop}
    (single : ∀ cs, separator ∉ cs → motive cs)
    (more : ∀ cs rest, separator ∉ cs → motive rest → motive (cs ++ separator :: rest))
    (cs : List Char) : motive cs := by
  by_cases h : separator ∈ cs
  · obtain ⟨piece, rest, hcs, hpiece⟩ := List.eq_append_cons_of_mem h
    have hshorter : rest.length < cs.length := by
      rw [hcs, List.length_append, List.length_cons]
      omega
    rw [hcs]
    exact more piece rest hpiece (pieces_induction separator single more rest)
  · exact single cs h
termination_by cs.length

theorem pieces_split {separator : Char} (cs rest : List Char) :
    pieces separator (cs ++ separator :: rest) = pieces separator cs ++ pieces separator rest := by
  induction cs using pieces_induction separator with
  | single cs h => rw [pieces_append rest h, pieces_of_not_mem h, List.singleton_append]
  | more cs others h ih =>
    rw [List.append_assoc, List.cons_append, pieces_append _ h, pieces_append _ h, ih,
      List.cons_append]

theorem pieces_intercalate {separator : Char} {texts : List (List Char)} (hne : texts ≠ [])
    (h : ∀ text ∈ texts, separator ∉ text) :
    pieces separator ([separator].intercalate texts) = texts := by
  induction texts with
  | nil => exact absurd rfl hne
  | cons text rest ih =>
    have htext := h text List.mem_cons_self
    cases rest with
    | nil =>
      rw [List.intercalate_singleton]
      exact pieces_of_not_mem htext
    | cons next rest =>
      have hrest := ih (List.cons_ne_nil _ _) fun t ht => h t (List.mem_cons_of_mem _ ht)
      rw [List.intercalate_cons_cons, List.append_assoc, List.singleton_append,
        pieces_append _ htext, hrest]

theorem not_mem_of_mem_pieces {separator : Char} {cs piece : List Char}
    (h : piece ∈ pieces separator cs) : separator ∉ piece := by
  induction cs using pieces_induction separator with
  | single cs hcs =>
    rw [pieces_of_not_mem hcs, List.mem_singleton] at h
    exact h ▸ hcs
  | more cs rest hcs ih =>
    rw [pieces_append rest hcs] at h
    rcases List.mem_cons.mp h with rfl | h
    · exact hcs
    · exact ih h

theorem forall_mem_intercalate {separator : Char} {P : Char → Prop} (hs : P separator)
    (texts : List (List Char)) :
    (∀ c ∈ [separator].intercalate texts, P c) ↔ ∀ text ∈ texts, ∀ c ∈ text, P c := by
  induction texts with
  | nil => simp
  | cons text rest ih =>
    cases rest with
    | nil => simp
    | cons next rest =>
      rw [List.intercalate_cons_cons, List.forall_mem_append, List.forall_mem_append, ih,
        List.forall_mem_singleton, List.forall_mem_cons (l := next :: rest)]
      exact ⟨fun h => ⟨h.1.1, h.2⟩, fun h => ⟨⟨h.1, hs⟩, h.2⟩⟩

def unifyLineEnds : List Char → List Char
  | [] => []
  | '\r' :: '\n' :: rest => '\n' :: unifyLineEnds rest
  | '\r' :: rest => '\n' :: unifyLineEnds rest
  | c :: rest => c :: unifyLineEnds rest

theorem mem_unifyLineEnds {cs : List Char} {c : Char} (h : c ∈ unifyLineEnds cs) :
    c ∈ cs ∨ c = '\n' := by
  fun_induction unifyLineEnds cs with
  | case1 => exact .inl h
  | case2 rest ih =>
    rcases List.mem_cons.mp h with rfl | h
    · exact .inr rfl
    · exact (ih h).imp_left fun hc => by simp [hc]
  | case3 rest _ ih =>
    rcases List.mem_cons.mp h with rfl | h
    · exact .inr rfl
    · exact (ih h).imp_left fun hc => by simp [hc]
  | case4 d rest _ _ ih =>
    rcases List.mem_cons.mp h with rfl | h
    · exact .inl List.mem_cons_self
    · exact (ih h).imp_left fun hc => by simp [hc]

theorem unifyLineEnds_cons {c : Char} (h : c ≠ '\r') (cs : List Char) :
    unifyLineEnds (c :: cs) = c :: unifyLineEnds cs := by
  rw [unifyLineEnds]
  · rintro rest rfl
    exact absurd rfl h
  · exact h

theorem unifyLineEnds_return {cs : List Char} (h : ∀ rest, cs ≠ '\n' :: rest) :
    unifyLineEnds ('\r' :: cs) = '\n' :: unifyLineEnds cs := by
  rw [unifyLineEnds]
  exact h

theorem unifyLineEnds_of_no_return {cs : List Char} (h : '\r' ∉ cs) : unifyLineEnds cs = cs := by
  induction cs with
  | nil => rfl
  | cons c cs ih =>
    rw [List.mem_cons, not_or] at h
    rw [unifyLineEnds_cons (Ne.symm h.1), ih h.2]

theorem return_not_mem {cs : List Char} (h : '\n' ∉ unifyLineEnds cs) : '\r' ∉ cs := by
  fun_induction unifyLineEnds cs with
  | case1 => exact List.not_mem_nil
  | case2 rest ih => exact absurd List.mem_cons_self h
  | case3 rest _ ih => exact absurd List.mem_cons_self h
  | case4 c rest _ hreturn ih =>
    rw [List.mem_cons, not_or] at h ⊢
    exact ⟨fun he => hreturn he.symm, ih h.2⟩

/-- The line ends of two texts are unified apart, unless a line end stands across both. -/
theorem unifyLineEnds_append {cs rest : List Char}
    (h : cs.getLast? ≠ some '\r' ∨ rest.head? ≠ some '\n') :
    unifyLineEnds (cs ++ rest) = unifyLineEnds cs ++ unifyLineEnds rest := by
  have tail {c : Char} {cs : List Char}
    (h : (c :: cs).getLast? ≠ some '\r' ∨ rest.head? ≠ some '\n') :
      cs.getLast? ≠ some '\r' ∨ rest.head? ≠ some '\n' := by
    refine h.imp_left fun hne hlast => hne ?_
    rw [List.getLast?_cons, hlast]
    rfl
  fun_induction unifyLineEnds cs with
  | case1 => rfl
  | case2 cs ih =>
    rw [List.cons_append, List.cons_append, unifyLineEnds, ih (tail (tail h)), List.cons_append]
  | case3 cs hcs ih =>
    have hnext : ∀ after, cs ++ rest ≠ '\n' :: after := by
      intro after he
      cases cs with
      | nil =>
        rcases h with h | h
        · exact h rfl
        · exact h (by rw [show rest = '\n' :: after from he]; rfl)
      | cons d cs => exact hcs cs (by rw [(List.cons.inj he).1])
    rw [List.cons_append, unifyLineEnds_return hnext, ih (tail h), List.cons_append]
  | case4 c cs _ hreturn ih =>
    rw [List.cons_append, unifyLineEnds_cons hreturn, ih (tail h), List.cons_append]

end Intcode.Text
