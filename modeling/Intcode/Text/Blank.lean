namespace Intcode.Text

/-- The characters that count as white space: the ASCII controls tab to carriage return and the
four information separators, the space, and the spaces and line ends of other scripts. -/
def isBlank (c : Char) : Bool :=
  let n := c.toNat
  (0x09 ≤ n && n ≤ 0x0D) || (0x1C ≤ n && n ≤ 0x20) || n == 0x85 || n == 0xA0 || n == 0x1680 ||
    (0x2000 ≤ n && n ≤ 0x200A) || n == 0x2028 || n == 0x2029 || n == 0x202F || n == 0x205F ||
    n == 0x3000

def trimStart (cs : List Char) : List Char :=
  cs.dropWhile isBlank

def trimEnd (cs : List Char) : List Char :=
  (cs.reverse.dropWhile isBlank).reverse

def trim (cs : List Char) : List Char :=
  trimEnd (trimStart cs)

theorem trimStart_of_head {c : Char} {cs : List Char} (h : isBlank c = false) :
    trimStart (c :: cs) = c :: cs := by
  simp [trimStart, h]

theorem trimEnd_of_last {c : Char} {cs : List Char} (h : isBlank c = false) :
    trimEnd (cs ++ [c]) = cs ++ [c] := by
  simp [trimEnd, h]

theorem trimStart_eq_nil_iff {cs : List Char} : trimStart cs = [] ↔ ∀ c ∈ cs, isBlank c = true := by
  induction cs with
  | nil => simp [trimStart]
  | cons c cs ih =>
    simp only [trimStart, List.dropWhile_cons] at ih ⊢
    by_cases h : isBlank c = true <;> simp [h, ih]

theorem trimStart_blank {before : List Char} (cs : List Char) (h : ∀ c ∈ before, isBlank c = true) :
    trimStart (before ++ cs) = trimStart cs :=
  List.dropWhile_append_of_pos h

theorem trimEnd_blank {after : List Char} (cs : List Char) (h : ∀ c ∈ after, isBlank c = true) :
    trimEnd (cs ++ after) = trimEnd cs := by
  have hr : ∀ c ∈ after.reverse, isBlank c = true := fun c hc => h c (List.mem_reverse.mp hc)
  rw [trimEnd, List.reverse_append, List.dropWhile_append_of_pos hr, trimEnd]

theorem trim_of_blank {cs : List Char} (h : ∀ c ∈ cs, isBlank c = true) : trim cs = [] := by
  rw [trim, trimStart_eq_nil_iff.mpr h]
  rfl

/-- The text neither starts nor ends with a blank. -/
structure Tight (cs : List Char) : Prop where
  start : ∀ c ∈ cs.head?, isBlank c = false
  stop : ∀ c ∈ cs.getLast?, isBlank c = false

theorem tight_of_no_blank {cs : List Char} (h : ∀ c ∈ cs, isBlank c = false) : Tight cs :=
  ⟨fun c hc => h c (List.mem_of_mem_head? hc), fun c hc => h c (List.mem_of_mem_getLast? hc)⟩

/-- Blanks around a text that is tight are all that is trimmed. -/
theorem Tight.trim_around {before cs after : List Char} (h : Tight cs)
    (hb : ∀ c ∈ before, isBlank c = true) (ha : ∀ c ∈ after, isBlank c = true) :
    trim (before ++ cs ++ after) = cs := by
  cases cs with
  | nil =>
    refine trim_of_blank fun c hmem => ?_
    rcases List.mem_append.mp hmem with hmem | hmem
    · exact hb c (by simpa using hmem)
    · exact ha c hmem
  | cons c cs =>
    have hstart : trimStart (before ++ (c :: cs) ++ after) = c :: cs ++ after := by
      rw [List.append_assoc, trimStart_blank _ hb]
      exact trimStart_of_head (h.start c rfl)
    obtain ⟨init, last, hlast⟩ :=
      List.eq_nil_or_concat (c :: cs) |>.resolve_left (List.cons_ne_nil c cs)
    rw [List.concat_eq_append] at hlast
    rw [trim, hstart, trimEnd_blank _ ha, hlast]
    exact trimEnd_of_last (h.stop last (by rw [hlast, List.getLast?_concat]; rfl))

theorem trim_of_tight {cs : List Char} (h : Tight cs) : trim cs = cs := by
  simpa using h.trim_around (List.forall_mem_nil _) (List.forall_mem_nil _)

theorem trim_of_no_blank {cs : List Char} (h : ∀ c ∈ cs, isBlank c = false) : trim cs = cs :=
  trim_of_tight (tight_of_no_blank h)

theorem trim_surrounded {before cs after : List Char} (hb : ∀ c ∈ before, isBlank c = true)
    (hc : ∀ c ∈ cs, isBlank c = false) (ha : ∀ c ∈ after, isBlank c = true) :
    trim (before ++ cs ++ after) = cs :=
  (tight_of_no_blank hc).trim_around hb ha

theorem trimStart_split (cs : List Char) :
    ∃ before, (∀ c ∈ before, isBlank c = true) ∧ cs = before ++ trimStart cs :=
  ⟨cs.takeWhile isBlank, List.all_eq_true.mp List.all_takeWhile,
    List.takeWhile_append_dropWhile.symm⟩

theorem trimEnd_split (cs : List Char) :
    ∃ after, (∀ c ∈ after, isBlank c = true) ∧ cs = trimEnd cs ++ after := by
  obtain ⟨before, hb, hsplit⟩ := trimStart_split cs.reverse
  refine ⟨before.reverse, fun c hc => hb c (List.mem_reverse.mp hc), ?_⟩
  rw [trimEnd, ← List.reverse_append]
  exact List.reverse_eq_iff.mp hsplit

theorem start_of_trimStart (cs : List Char) : ∀ c ∈ (trimStart cs).head?, isBlank c = false := by
  intro c hc
  have hdrop := List.head?_dropWhile_not isBlank cs
  rw [trimStart, Option.mem_def] at hc
  rw [hc] at hdrop
  exact hdrop

theorem trim_split (cs : List Char) :
    ∃ before after, (∀ c ∈ before, isBlank c = true) ∧ (∀ c ∈ after, isBlank c = true) ∧
      cs = before ++ trim cs ++ after := by
  obtain ⟨before, hb, hstart⟩ := trimStart_split cs
  obtain ⟨after, ha, hend⟩ := trimEnd_split (trimStart cs)
  refine ⟨before, after, hb, ha, ?_⟩
  rw [List.append_assoc, trim, ← hend]
  exact hstart

theorem tight_trim (cs : List Char) : Tight (trim cs) := by
  refine ⟨fun c hc => ?_, fun c hc => ?_⟩
  · obtain ⟨after, _, hend⟩ := trimEnd_split (trimStart cs)
    refine start_of_trimStart cs c ?_
    rw [hend, List.head?_append, show (trimEnd (trimStart cs)).head? = some c from hc]
    rfl
  · rw [trim, trimEnd, List.getLast?_reverse] at hc
    exact start_of_trimStart (trimStart cs).reverse c hc

theorem trim_trim (cs : List Char) : trim (trim cs) = trim cs := trim_of_tight (tight_trim cs)

theorem trim_between {before after : List Char} (cs : List Char)
    (hb : ∀ c ∈ before, isBlank c = true)
    (ha : ∀ c ∈ after, isBlank c = true) : trim (before ++ cs ++ after) = trim cs := by
  obtain ⟨before', after', hb', ha', hcs⟩ := trim_split cs
  have hsplit : before ++ cs ++ after = (before ++ before') ++ trim cs ++ (after' ++ after) :=
    calc before ++ cs ++ after
      _ = before ++ (before' ++ trim cs ++ after') ++ after := by rw [← hcs]
      _ = (before ++ before') ++ trim cs ++ (after' ++ after) := by simp only [List.append_assoc]
  rw [hsplit]
  refine (tight_trim cs).trim_around (fun c hc => ?_) (fun c hc => ?_)
  · exact (List.mem_append.mp hc).elim (hb c) (hb' c)
  · exact (List.mem_append.mp hc).elim (ha' c) (ha c)

theorem trim_eq_nil_iff {cs : List Char} : trim cs = [] ↔ ∀ c ∈ cs, isBlank c = true := by
  refine ⟨fun h => ?_, trim_of_blank⟩
  obtain ⟨before, after, hb, ha, hcs⟩ := trim_split cs
  rw [hcs, h, List.append_nil]
  exact fun c hc => (List.mem_append.mp hc).elim (hb c) (ha c)

end Intcode.Text
