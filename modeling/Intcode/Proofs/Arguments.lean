import Intcode.CommandLine.Arguments
import Mathlib.Data.List.Chain

namespace Intcode

namespace CommandLine

/-- The options keep the property when a switch is turned on or a setting gets a value of `V`. -/
structure Options.Kept (V : String → Prop) (P : Options → Prop) : Prop where
  turnOn : ∀ o s, P o → P (o.turnOn s)
  give : ∀ o o' s text, V text → P o → o.give s text = .ok o' → P o'

/-- Whatever value the words give to a setting, it is one of `V`. -/
structure Word.Offer (V : String → Prop) (words : List Word) : Prop where
  attached : ∀ f isShort cs, .option f isShort (some cs) ∈ words →
    ∀ text : String, text.toList <:+ cs → V text
  next : words.IsChain fun w w' => ∀ f isShort cs text,
    w = .option f isShort cs → w' = .plain text → V text

section

variable {V : String → Prop}

theorem expandShort_value {s : Switch} {cs : List Char} {switches : List Switch} {t : Setting}
    {text : String} (h : expandShort s cs = .ok (switches, .value t text)) :
    text.toList <:+ cs := by
  fun_induction expandShort s cs generalizing switches with
  | case1 | case2 | case3 | case4 => cases h
  | case5 _ c _ value =>
    cases h
    rw [String.toList_ofList]
    exact List.suffix_cons c value
  | case6 _ c s' rest _ _ ih =>
    cases hrest : expandShort s' rest with
    | error e =>
      rw [hrest] at h
      cases h
    | ok r =>
      obtain ⟨more, ending⟩ := r
      rw [hrest] at h
      cases h
      exact (ih hrest).trans (List.suffix_cons c rest)

theorem expand_value {f : Flag} {isShort : Bool} {attached : Option (List Char)}
    {switches : List Switch} {t : Setting} {text : String}
    (h : expand f isShort attached = .ok (switches, .value t text)) :
    ∃ cs, attached = some cs ∧ text.toList <:+ cs := by
  unfold expand at h
  split at h
  next => cases h
  next => cases h
  next t' cs =>
    cases h
    exact ⟨cs, rfl, by simp⟩
  next s cs =>
    split at h
    · exact ⟨cs, rfl, expandShort_value h⟩
    · cases h

namespace Word

theorem suffix_of_candidates {cs : List Char} {c : String × Flag × Option (List Char)}
    (hc : c ∈ candidates cs) {value : List Char} (hv : c.2.2 = some value) : value <:+ cs := by
  unfold candidates at hc
  split at hc
  next rest =>
    obtain ⟨_, _, rfl⟩ := List.mem_map.mp hc
    simp only at hv
    split at hv
    next => cases hv
    next e value' hdrop =>
      cases hv
      have hsuffix := List.dropWhile_suffix (l := '-' :: '-' :: rest) (· ≠ '=')
      rw [hdrop] at hsuffix
      exact (List.suffix_cons e value).trans hsuffix
  next c' value' _ =>
    obtain ⟨_, _, rfl⟩ := List.mem_map.mp hc
    cases hv
    exact (List.suffix_cons c' value).trans (List.suffix_cons '-' _)
  next => cases hc

theorem suffix_of_ofText {text : String} {f : Flag} {isShort : Bool} {value : List Char}
    (h : ofText text = .ok (.option f isShort (some value))) : value <:+ text.toList := by
  unfold ofText at h
  simp only at h
  split at h
  next =>
    split at h
    next => cases h
    next e value' _ _ hdrop =>
      cases h
      have hsuffix := List.dropWhile_suffix (l := text.toList) (· ≠ '=')
      rw [hdrop] at hsuffix
      exact (List.suffix_cons e value).trans hsuffix
    next =>
      split at h
      next name f' attached hone =>
        cases h
        exact suffix_of_candidates (hone ▸ List.mem_cons_self) rfl
      next =>
        split at h <;> cases h
      next => cases h
  next => cases h

theorem eq_of_ofText_plain {text text' : String} (h : ofText text = .ok (.plain text')) :
    text' = text := by
  unfold ofText at h
  simp only at h
  split at h
  next =>
    split at h
    next => cases h
    next => cases h
    next =>
      split at h
      next => cases h
      next =>
        split at h
        · cases h
          rfl
        · cases h
      next => cases h
  next =>
    cases h
    rfl

theorem ofTexts_cons {text : String} {rest : List String} {words : List Word}
    (h : ofTexts (text :: rest) = .ok words) :
    (text = "--" ∧ words = .separator :: rest.map .plain) ∨
      text ≠ "--" ∧ ∃ word words', ofText text = .ok word ∧ ofTexts rest = .ok words' ∧
        words = word :: words' := by
  unfold ofTexts at h
  split at h
  next hs =>
    cases h
    exact .inl ⟨hs, rfl⟩
  next hs =>
    cases hword : ofText text with
    | error e =>
      rw [hword] at h
      cases h
    | ok word =>
      cases hwords : ofTexts rest with
      | error e =>
        rw [hword, hwords] at h
        cases h
      | ok words' =>
        rw [hword, hwords] at h
        cases h
        exact .inr ⟨hs, word, words', rfl, rfl, rfl⟩

theorem Offer.tail {w : Word} {words : List Word} (h : Offer V (w :: words)) : Offer V words :=
  ⟨fun f isShort cs hmem => h.attached f isShort cs (List.mem_cons_of_mem w hmem), h.next.tail⟩

theorem offer_of_no_option {words : List Word}
    (h : ∀ w ∈ words, ∀ f isShort cs, w ≠ .option f isShort cs) : Offer V words := by
  refine ⟨fun f isShort cs hmem => absurd rfl (h _ hmem f isShort (some cs)), ?_⟩
  induction words with
  | nil => exact .nil
  | cons w words ih =>
    refine List.isChain_cons.mpr ⟨fun w' _ f isShort cs text hw => ?_, ?_⟩
    · exact absurd hw (h w List.mem_cons_self f isShort cs)
    · exact ih fun w' hw' => h w' (List.mem_cons_of_mem w hw')

theorem head_of_ofTexts {texts : List String} {words : List Word} (h : ofTexts texts = .ok words)
    {text : String} (hhead : .plain text ∈ words.head?) : text ≠ "--" ∧ text ∈ texts := by
  cases texts with
  | nil =>
    rw [ofTexts] at h
    cases h
    cases hhead
  | cons first rest =>
    rcases ofTexts_cons h with ⟨_, rfl⟩ | ⟨hne, word, words', hword, _, rfl⟩
    · cases hhead
    · cases hhead
      rw [eq_of_ofText_plain hword]
      exact ⟨hne, List.mem_cons_self⟩

theorem offer_of_ofTexts {arguments : List String} {words : List Word}
    (hV : ∀ argument ∈ arguments, argument ≠ "--" → ∀ text : String,
      text.toList <:+ argument.toList → V text)
    (h : ofTexts arguments = .ok words) : Offer V words := by
  induction arguments generalizing words with
  | nil =>
    rw [ofTexts] at h
    cases h
    exact offer_of_no_option nofun
  | cons argument rest ih =>
    have hrest (a : String) (ha : a ∈ rest) := hV a (List.mem_cons_of_mem argument ha)
    rcases ofTexts_cons h with ⟨_, rfl⟩ | ⟨hne, word, words', hword, hwords, rfl⟩
    · refine offer_of_no_option fun w hw f isShort cs ho => ?_
      rw [ho] at hw
      simp at hw
    · obtain ⟨hattached, hnext⟩ := ih hrest hwords
      refine ⟨fun f isShort cs hmem text ht => ?_, List.isChain_cons.mpr ⟨?_, hnext⟩⟩
      · rcases List.mem_cons.mp hmem with rfl | hmem
        · exact hV argument List.mem_cons_self hne text (ht.trans (suffix_of_ofText hword))
        · exact hattached f isShort cs hmem text ht
      · rintro w' hw' f isShort cs text _ rfl
        obtain ⟨hne', hmem⟩ := head_of_ofTexts hwords hw'
        exact hrest text hmem hne' text List.suffix_rfl

end Word

namespace Progress

variable {P : Options → Prop} {p p' : Progress}

theorem turnOn_keeps (hP : Options.Kept V P) {switches : List Switch} (h : P p.options)
    (hp : p.turnOn switches = .ok p') : P p'.options := by
  induction switches generalizing p with
  | nil =>
    cases hp
    exact h
  | cons s rest ih =>
    have hnext : P ({ p with options := p.options.turnOn s } : Progress).options :=
      hP.turnOn p.options s h
    cases s with
    | help => cases hp
    | _ => exact ih hnext hp

theorem give_keeps (hP : Options.Kept V P) {s : Setting} {text : String} (ht : V text)
    (h : P p.options) (hp : p.give s text = .ok p') : P p'.options := by
  unfold give at hp
  split at hp
  next o ho =>
    cases hp
    exact hP.give _ o s text ht h ho
  next => cases hp

theorem consume_keeps (hP : Options.Kept V P) {words : List Word} (hw : Word.Offer V words)
    (h : P p.options) (hp : consume words p = .ok p') : P p'.options := by
  fun_induction consume words p with
  | case1 =>
    cases hp
    exact h
  | case2 _ _ _ ih | case3 _ _ _ _ ih | case5 _ _ _ _ _ ih | case7 _ _ _ ih => exact ih hw.tail h hp
  | case4 _ _ _ _ ih | case6 _ _ _ _ ih => exact ih hw.tail.tail h hp
  | case8 | case9 | case11 | case12 | case14 | case15 | case17 => cases hp
  | case10 _ _ _ _ _ _ _ hturn _ ih => exact ih hw.tail (turnOn_keeps hP h hturn) hp
  | case13 f isShort _ _ _ _ text _ _ hturn _ hgive hexpand ih =>
    obtain ⟨cs, rfl, ht⟩ := expand_value hexpand
    have htext : V text := hw.attached f isShort cs List.mem_cons_self text ht
    exact ih hw.tail (give_keeps hP htext (turnOn_keeps hP h hturn) hgive) hp
  | case16 f isShort attached _ _ _ text _ _ hturn _ hgive _ ih =>
    have htext : V text := (List.isChain_cons_cons.mp hw.next).1 f isShort attached text rfl rfl
    exact ih hw.tail.tail (give_keeps hP htext (turnOn_keeps hP h hturn) hgive) hp

end Progress

theorem ofArguments_keeps {P : Options → Prop} (hP : Options.Kept V P) (hstart : P {})
    {arguments : List String} (hV : ∀ argument ∈ arguments, argument ≠ "--" → ∀ text : String,
      text.toList <:+ argument.toList → V text)
    {i : Invocation} (h : Invocation.ofArguments arguments = .ok i) : P i.options := by
  unfold Invocation.ofArguments at h
  split at h
  next => cases h
  next words hwords =>
    split at h
    next => cases h
    next p hp =>
      have hkept := Progress.consume_keeps hP (Word.offer_of_ofTexts hV hwords) hstart hp
      split at h
      next => cases h
      next program _ =>
        split at h
        · split at h
          next => cases h
          next =>
            cases h
            exact hkept
        · cases h

end

namespace Options

/-- The starting colour is a number, or the list that stands for a missing one. -/
def HasPlainColor (o : Options) : Prop :=
  (∃ n, o.startColor = .integer n) ∨ o.startColor = .emptyList

def HasIntegerInputs (o : Options) : Prop := ∀ value ∈ o.inputs, ∃ n, value = .integer n

theorem giveText_ok {o o' : Options} {s : Setting} {text : String}
    (h : o.giveText s text = .ok o') :
    (∃ n, o' = { o with inputs := o.inputs ++ [.integer n] }) ∨
    (∃ p, o' = { o with patches := o.patches ++ [some p] }) ∨
    (∃ phases, o' = { o with amplifiers := some phases }) ∨
    (∃ n, o' = { o with signal := .integer n }) ∨
    ∃ n, o' = { o with startColor := .integer n } := by
  unfold giveText at h
  cases s with
  | input =>
    simp only at h
    split at h
    next n _ => exact .inl ⟨n, (Except.ok.inj h).symm⟩
    next => cases h
  | patch =>
    simp only at h
    split at h
    next p _ => exact .inr (.inl ⟨p, (Except.ok.inj h).symm⟩)
    next => cases h
  | amplifiers =>
    simp only at h
    split at h
    next phases _ => exact .inr (.inr (.inl ⟨phases, (Except.ok.inj h).symm⟩))
    next => cases h
  | signal =>
    simp only at h
    split at h
    next n _ => exact .inr (.inr (.inr (.inl ⟨n, (Except.ok.inj h).symm⟩)))
    next => cases h
  | startColor =>
    simp only at h
    split at h
    next n _ =>
      split at h
      · exact .inr (.inr (.inr (.inr ⟨n, (Except.ok.inj h).symm⟩)))
      · cases h
    next => cases h

theorem kept_plainColor : Kept (fun _ => True) HasPlainColor := by
  refine ⟨fun o s h => ?_, fun o o' s text _ h ho => ?_⟩
  · cases s <;> exact h
  · unfold give at ho
    split at ho
    · cases ho
      cases s with
      | startColor => exact .inr rfl
      | input | patch | amplifiers | signal => exact h
    · obtain ⟨_, rfl⟩ | ⟨_, rfl⟩ | ⟨_, rfl⟩ | ⟨_, rfl⟩ | ⟨n, rfl⟩ := giveText_ok ho
      · exact h
      · exact h
      · exact h
      · exact h
      · exact .inl ⟨n, rfl⟩

theorem kept_integerInputs : Kept (· ≠ "--") HasIntegerInputs := by
  refine ⟨fun o s h => ?_, fun o o' s text ht h ho => ?_⟩
  · cases s <;> exact h
  · rw [give, if_neg ht] at ho
    obtain ⟨n, rfl⟩ | ⟨_, rfl⟩ | ⟨_, rfl⟩ | ⟨_, rfl⟩ | ⟨_, rfl⟩ := giveText_ok ho
    · intro value hv
      rcases List.mem_append.mp hv with hv | hv
      · exact h value hv
      · exact ⟨n, List.mem_singleton.mp hv⟩
    · exact h
    · exact h
    · exact h
    · exact h

end Options

theorem plainColor_of_ofArguments {arguments : List String} {i : Invocation}
    (h : Invocation.ofArguments arguments = .ok i) : i.options.HasPlainColor :=
  ofArguments_keeps Options.kept_plainColor (.inl ⟨0, rfl⟩) (fun _ _ _ _ _ => trivial) h

/-- The inputs are integers unless an argument attaches `--` to an option. -/
theorem integerInputs_of_ofArguments {arguments : List String} {i : Invocation}
    (ha : ∀ argument ∈ arguments, argument = "--" ∨ ¬ "--".toList <:+ argument.toList)
    (h : Invocation.ofArguments arguments = .ok i) : i.options.HasIntegerInputs := by
  refine ofArguments_keeps Options.kept_integerInputs nofun (fun argument hmem hne text ht => ?_) h
  rintro rfl
  rcases ha argument hmem with rfl | hnot
  · exact hne rfl
  · exact hnot ht

end CommandLine

end Intcode
