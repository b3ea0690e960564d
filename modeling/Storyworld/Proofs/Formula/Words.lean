import Storyworld.Formula.Parser
import Storyworld.Proofs.Decimal.Bare
import Storyworld.Proofs.Decimal.Numeral
import Storyworld.Proofs.Text.Escaped
import Mathlib.Data.List.TakeWhile

/-!
Words in a row: names, numerals and marks, each read for itself whatever comes behind, as long as it
ends there.
-/

namespace Storyworld

namespace Token

variable {c d : Char} {s rest raw : List Char} {tokens tokens' : List Token} {token : Token} {x : Float}
  {name : String}

theorem readAll_of_next (h : next c s = .ok (tokens, rest)) :
    readAll (c :: s) = (tokens ++ ·) <$> readAll rest := by
  rw [readAll.eq_def]
  dsimp only
  split
  case h_1 h'     => cases h'.symm.trans h
  case h_2 _ _ h' => cases h'.symm.trans h; rfl

theorem readAll_of_error {e : FormulaError} (h : next c s = .error e) : readAll (c :: s) = .error e := by
  rw [readAll.eq_def]
  dsimp only
  split
  case h_1 _ h'   => cases h'.symm.trans h; rfl
  case h_2 _ _ h' => cases h'.symm.trans h

@[simp] theorem readAll_nil : readAll [] = .ok [] := by
  rw [readAll.eq_def]

-- The first words, by what they start with.
inductive IsNext (c : Char) (s : List Char) : List Token → List Char → Prop
  | blank (hb : Text.isBlank c) : IsNext c s [] s
  | numeral {ts : List Token} {r : List Char} (hb : Text.isBlank c = false)
    (hd : c.isDigit || (c == '.' && s.head?.any Char.isDigit)) (h : numeral (c :: s) = .ok (ts, r)) :
    IsNext c s ts r
  | name (hb : Text.isBlank c = false) (hd : c.isDigit = false) (hc : Text.startsName c) :
    IsNext c s [.name (.ofList (c :: s.takeWhile Text.continuesName))] (s.dropWhile Text.continuesName)
  | text {body r : List Char} (h : quotedBody c s = some (body, r)) : IsNext c s [.text (.ofList body)] r
  | power : IsNext c s [.op '^'] s.tail
  | mark {t : Token} (h : mark? c = some t) : IsNext c s [t] s

theorem isNext (h : next c s = .ok (tokens, rest)) : IsNext c s tokens rest := by
  unfold next at h
  split at h
  case isTrue hb => cases h; exact .blank hb
  case isFalse hb =>
  rw [Bool.not_eq_true] at hb
  split at h
  case isTrue hd => exact .numeral hb hd h
  case isFalse hd =>
  rw [Bool.or_eq_true, not_or, Bool.not_eq_true] at hd
  split at h
  case isTrue hc => cases h; exact .name hb hd.1 hc
  case isFalse =>
  split at h
  case isTrue =>
    split at h
    case h_1    => cases h
    case h_2 ht => cases h; exact .text ht
  case isFalse =>
  split at h
  case isTrue => cases h; exact .power
  case isFalse =>
  split at h
  case h_1 hm => cases h; exact .mark hm
  case h_2    => cases h

-- In front of the text stand these words, and the rest is read for itself.
def Fronts (s rest : List Char) (tokens : List Token) : Prop :=
  readAll (s ++ rest) = (tokens ++ ·) <$> readAll rest

theorem fronts_nil : Fronts [] rest [] := by
  cases h : readAll rest <;> simp [Fronts, h]

theorem Fronts.append {s' : List Char} (h : Fronts s (s' ++ rest) tokens)
    (h' : Fronts s' rest tokens') : Fronts (s ++ s') rest (tokens ++ tokens') := by
  unfold Fronts at *
  rw [List.append_assoc, h, h']
  cases readAll rest <;> simp

theorem Fronts.readAll (h : Fronts s [] tokens) : Token.readAll s = .ok tokens := by
  rw [Fronts, List.append_nil, readAll_nil] at h
  exact h.trans <| congrArg Except.ok (List.append_nil tokens)

/-! ## Ends of words -/

-- What a name or a numeral ends at in a formula that is written out.
def Ends (s : List Char) : Prop :=
  ∀ c ∈ s.head?, [' ', ')', ']', ',', '!'].contains c

@[simp] theorem ends_nil : Ends [] := by
  simp [Ends]

@[simp] theorem ends_cons : Ends (c :: s) ↔ [' ', ')', ']', ',', '!'].contains c := by
  simp [Ends]

theorem Ends.head {p : Char → Bool} (h : Ends s) (hp : [' ', ')', ']', ',', '!'].all fun c => !p c) :
    ∀ c ∈ s.head?, p c = false := by
  intro c hc
  simpa using List.all_eq_true.mp hp c (List.contains_iff_mem.mp (h c hc))

theorem span_append {p : Char → Bool} (hs : ∀ c ∈ s, p c) (hr : ∀ c ∈ rest.head?, p c = false) :
    (s ++ rest).takeWhile p = s ∧ (s ++ rest).dropWhile p = rest := by
  rw [List.takeWhile_append_of_pos hs, List.dropWhile_append_of_pos hs]
  cases rest <;> simp_all

theorem span_ends {p : Char → Bool} (hr : ∀ c ∈ rest.head?, p c = false) :
    (s ++ rest).takeWhile p = s.takeWhile p ∧ (s ++ rest).dropWhile p = s.dropWhile p ++ rest := by
  induction s
  case nil => cases rest <;> simp_all
  case cons c s ih =>
    simp only [List.cons_append, List.takeWhile_cons, List.dropWhile_cons]
    split
    · exact ⟨congrArg _ ih.1, ih.2⟩
    · exact ⟨rfl, rfl⟩

theorem any_head?_append {p : Char → Bool} (hr : ∀ c ∈ rest.head?, p c = false) :
    (s ++ rest).head?.any p = s.head?.any p := by
  cases s
  case nil  => cases rest <;> simp_all
  case cons => rfl

/-! ## Names -/

def IsName (s : String) : Prop :=
  ∃ c r, s.toList = c :: r ∧ Text.isBlank c = false ∧ c.isDigit = false ∧ Text.startsName c ∧
    r.all Text.continuesName

theorem next_name (hb : Text.isBlank c = false) (hd : c.isDigit = false) (hc : Text.startsName c)
    (hs : ∀ d ∈ s, Text.continuesName d) (hr : ∀ d ∈ rest.head?, Text.continuesName d = false) :
    next c (s ++ rest) = .ok ([.name (.ofList (c :: s))], rest) := by
  have hp : c ≠ '.' := by
    rintro rfl
    revert hc
    decide
  have ⟨ht, hw⟩ := span_append hs hr
  simp [next, hb, hd, hc, hp, ht, hw]

theorem IsName.fronts (h : IsName name) (hr : ∀ d ∈ rest.head?, Text.continuesName d = false) :
    Fronts name.toList rest [.name name] := by
  obtain ⟨c, r, hn, hb, hd, hc, hs⟩ := h
  have hw := next_name hb hd hc (List.all_eq_true.mp hs) hr
  rw [Fronts, hn, List.cons_append, readAll_of_next hw, ← hn, String.ofList_toList]

theorem mark?_ne_name : mark? c ≠ some (.name name) := by
  unfold mark?
  repeat' split
  all_goals nofun

theorem not_mem_of_numeral (h : numeral s = .ok (tokens, rest)) : .name name ∉ tokens := by
  unfold numeral at h
  dsimp only at h
  split at h
  case h_1 => cases h
  case h_2 =>
    cases h
    split <;> simp

-- Every word that is read as a name is one, and stands in front of the rest.
theorem name_of_next (h : next c s = .ok (tokens, rest)) (hn : .name name ∈ tokens) :
    IsName name ∧ c :: s = name.toList ++ rest := by
  cases isNext h with
  | blank          => cases hn
  | numeral _ _ h  => exact absurd hn (not_mem_of_numeral h)
  | name hb hd hc  =>
    obtain rfl := Token.name.inj (List.mem_singleton.mp hn)
    refine ⟨⟨c, _, String.toList_ofList, hb, hd, hc, ?_⟩, ?_⟩
    · exact List.all_eq_true.mpr fun _ => List.mem_takeWhile_imp
    · rw [String.toList_ofList, List.cons_append, List.takeWhile_append_dropWhile]
  | text | power   => cases List.mem_singleton.mp hn
  | mark ht        => exact absurd (List.mem_singleton.mp hn ▸ ht) mark?_ne_name

-- The words of a text are those in front and those of the rest.
theorem exists_of_readAll_cons (h : next c s = .ok (tokens', rest)) (hr : readAll (c :: s) = .ok tokens) :
    ∃ more, readAll rest = .ok more ∧ tokens' ++ more = tokens := by
  rw [readAll_of_next h] at hr
  cases hm : readAll rest
  case error   => rw [hm] at hr; cases hr
  case ok more => rw [hm] at hr; exact ⟨more, rfl, Except.ok.inj hr⟩

theorem isName_of_readAll (h : readAll s = .ok tokens) (hn : .name name ∈ tokens) : IsName name := by
  fun_induction readAll s generalizing tokens
  case case1 => cases h; cases hn
  case case2 => cases h
  case case3 c s tokens' rest hc _ ih =>
    obtain ⟨more, hr, rfl⟩ := exists_of_readAll_cons hc (by rwa [readAll_of_next hc])
    exact (List.mem_append.mp hn).elim (fun hn => (name_of_next hc hn).1) (ih hr)

/-! ## Numerals -/

theorem exponentPart_of_ends (h : Ends s) : exponentPart s = ([], s) := by
  cases s
  case nil => rfl
  case cons c r =>
    have h₁ := h.head (p := (· == 'e')) (by decide) c rfl
    have h₂ := h.head (p := (· == 'E')) (by decide) c rfl
    simp [exponentPart, h₁, h₂]

theorem signPart_cons : signPart (c :: s) = if c = '+' ∨ c = '-' then [c] else [] := by
  unfold signPart
  split <;> simp_all

theorem signPart_append (hr : Ends rest) :
    signPart (s ++ rest) = signPart s ∧
      (s ++ rest).drop (signPart s).length = s.drop (signPart s).length ++ rest := by
  cases s
  case nil =>
    refine ⟨?_, rfl⟩
    cases rest
    case nil => rfl
    case cons d r =>
      have h := hr.head (p := fun c => c = '+' ∨ c = '-') (by decide) d rfl
      rw [List.nil_append, signPart_cons, if_neg (of_decide_eq_false h)]
      rfl
  case cons c s =>
    rw [List.cons_append, signPart_cons, signPart_cons]
    split <;> exact ⟨rfl, rfl⟩

theorem exponentPart_append (hr : Ends rest) :
    exponentPart (s ++ rest) = ((exponentPart s).1, (exponentPart s).2 ++ rest) := by
  cases s
  case nil => exact exponentPart_of_ends hr
  case cons c s =>
    have ⟨hs, hd⟩ := signPart_append (s := s) hr
    have hn := hr.head (p := Char.isDigit) (by decide)
    have ⟨ht, hw⟩ := span_ends (s := s.drop (signPart s).length) hn
    simp only [List.cons_append, exponentPart, hs, hd, any_head?_append hn, ht, hw]
    split <;> rfl

theorem numeral_append (hr : Ends rest) :
    numeral (s ++ rest) = (numeral s).map fun r => (r.1, r.2 ++ rest) := by
  have ⟨ht, hd⟩ := span_ends (s := s) (p := inNumeral) (hr.head (by decide))
  have hf := hr.head (p := fun c => Text.startsName c || c == '(') (by decide)
  simp only [numeral, ht, hd, exponentPart_append hr, any_head?_append hf]
  split <;> rfl

theorem numeral_of_isNumeral (hs : Decimal.IsNumeral s) :
    numeral s = match Decimal.readFloat? s with
      | none => .error (.malformedNumber (.ofList s))
      | some x => .ok ([number x], []) := by
  have ht : s.takeWhile inNumeral = s := List.takeWhile_eq_self_iff.mpr hs.2
  have hd : s.dropWhile inNumeral = [] := List.dropWhile_eq_nil_iff.mpr hs.2
  simp only [numeral, ht, hd, exponentPart, List.append_nil]
  rfl

-- A numeral makes up one word at most.
theorem next_numeral (hs : Decimal.IsNumeral (c :: s)) :
    next c s = match Decimal.readFloat? (c :: s) with
      | none => .error (.malformedNumber (.ofList (c :: s)))
      | some x => .ok ([number x], []) := by
  obtain ⟨c, r, he, hc⟩ := hs.1
  cases he
  have hb := Text.isBlank_eq_false_of_isBare (Text.isBare_of_isDigit hc)
  rw [← numeral_of_isNumeral hs]
  simp [next, hb, hc]

theorem readAll_numeral (hs : Decimal.IsNumeral s) :
    readAll s = match Decimal.readFloat? s with
      | none => .error (.malformedNumber (.ofList s))
      | some x => .ok [number x] := by
  obtain ⟨c, r, rfl, _⟩ := hs.1
  have hn := next_numeral hs
  cases hx : Decimal.readFloat? (c :: r) <;> rw [hx] at hn
  case none   => exact readAll_of_error hn
  case some x => rw [readAll_of_next hn, readAll_nil]; rfl

theorem mark?_ne_number : mark? c ≠ some (.number x) := by
  unfold mark?
  repeat' split
  all_goals nofun

-- A text that is one number to the reader ends in front of an end of words.
theorem next_append_of_number (h : next c s = .ok ([number x], raw)) (hr : Ends rest) :
    next c (s ++ rest) = .ok ([number x], raw ++ rest) := by
  cases isNext h with
  | numeral hb hd h =>
    have hd' := any_head?_append (s := s) (hr.head (p := Char.isDigit) (by decide))
    rw [next, if_neg (by simp [hb]), hd', if_pos hd, ← List.cons_append, numeral_append hr, h]
    rfl
  | mark ht => exact absurd ht mark?_ne_number

theorem numeral_ne_nil : numeral s ≠ .ok ([], rest) := by
  intro h
  unfold numeral at h
  dsimp only at h
  split at h <;> cases h

theorem blank_of_next (h : next c s = .ok ([], raw)) : Text.isBlank c ∧ raw = s := by
  cases isNext h with
  | blank hb      => exact ⟨hb, rfl⟩
  | numeral _ _ h => exact absurd h numeral_ne_nil

theorem fronts_cons (h : next c (s ++ rest) = .ok (tokens, raw ++ rest)) (hr : Fronts raw rest tokens') :
    Fronts (c :: s) rest (tokens ++ tokens') := by
  rw [Fronts, List.cons_append, readAll_of_next h, hr]
  cases readAll rest <;> simp

-- Blanks around a numeral are no matter.
theorem fronts_of_readAll (hr : Ends rest) (h : readAll s = .ok tokens)
    (ht : tokens = [] ∨ tokens = [number x]) : Fronts s rest tokens := by
  fun_induction readAll s generalizing tokens
  case case1 => cases h; exact fronts_nil
  case case2 => cases h
  case case3 c s tokens' raw hc _ ih =>
    obtain ⟨more, hm, rfl⟩ := exists_of_readAll_cons hc (by rwa [readAll_of_next hc])
    obtain _ | ⟨t, ts⟩ := tokens'
    case nil =>
      have ⟨hb, hs⟩ := blank_of_next hc
      have hn : next c (s ++ rest) = .ok ([], s ++ rest) := by rw [next, if_pos hb]
      exact fronts_cons hn (hs ▸ ih hm ht)
    case cons =>
      obtain ⟨rfl, hn⟩ : t = number x ∧ ts ++ more = [] := by simpa using ht
      obtain ⟨rfl, rfl⟩ := List.append_eq_nil_iff.mp hn
      exact fronts_cons (next_append_of_number hc hr) (ih hm (.inl rfl))

/-! ## Quoted texts -/

theorem next_of_quotedBody {body : List Char} (hq : c = '"' ∨ c = '\'')
    (h : quotedBody c s = some (body, rest)) :
    next c s = .ok ([.text (.ofList body)], rest) := by
  have hn : Text.startsName '"' = false ∧ Text.startsName '\'' = false := by decide
  obtain rfl | rfl := hq <;> simp [next, h, hn, Text.isBlank, Char.isDigit]

theorem fronts_quoted {t : String} : Fronts ('"' :: (t.toList.flatMap Text.escaped ++ ['"'])) rest [.text t] := by
  have hb : (t.toList.flatMap Text.escaped ++ ['"']) ++ rest = t.toList.flatMap Text.escaped ++ '"' :: rest := by simp
  have hn : next '"' (t.toList.flatMap Text.escaped ++ '"' :: rest) = .ok ([.text t], rest) := by
    rw [next_of_quotedBody (.inl rfl) quotedBody_escaped, String.ofList_toList]
  exact readAll_of_next (hb.symm ▸ hn : next '"' ((t.toList.flatMap Text.escaped ++ ['"']) ++ rest) = _)

/-! ## Marks -/

theorem fronts_blank : Fronts [' '] rest [] := by
  exact readAll_of_next (by rfl)

theorem fronts_mark (h : [('(', openParen), (')', closeParen), ('[', openBracket), (']', closeBracket),
    (',', comma), ('!', op '!'), ('-', op '-')].contains (c, token)) : Fronts [c] rest [token] := by
  refine readAll_of_next ?_
  simp only [List.contains_iff_mem, List.mem_cons, Prod.mk.injEq, List.not_mem_nil, or_false] at h
  obtain h | h | h | h | h | h | h := h <;>
    obtain ⟨rfl, rfl⟩ := h <;> rfl

-- With a blank behind it a star is no half of a power.
theorem fronts_operator {o : Op} : Fronts [o.symbol] (' ' :: rest) [op o.symbol] := by
  refine readAll_of_next ?_
  cases o <;> rfl

end Token

end Storyworld
