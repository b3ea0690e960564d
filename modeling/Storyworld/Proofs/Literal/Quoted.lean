import Storyworld.Formula.Lexer
import Storyworld.Json.Parser
import Storyworld.Proofs.Command.Argument
import Storyworld.Proofs.Literal.RoundTrip
import Mathlib.Data.List.TakeWhile

/-!
Strings in quotes: what is written between the quotes, with the escapes in it, and the characters that
it stands for.
-/

namespace Storyworld.Literal

variable {quote c d : Char} {c? : Option Char} {s t rest more e hex body cs : List Char} {fuel n whole room : Nat}
  {E F : List Char → Option Char → Prop} {q k : String}

/-! ## Escapes -/

-- What stands behind a backslash, and the character that comes of both, if one does.
inductive Escape : List Char → Option Char → Prop where
  | letter {d : Char} {c? : Option Char} (h : escape [d] = .ok (c?, [])) : Escape [d] c?
  | byte {hex : List Char} {c : Char} (hl : hex.length = 2) (hc : charOfHex? hex = some c) :
    Escape ('x' :: hex) (some c)
  | unit {hex : List Char} {c : Char} (hl : hex.length = 4) (hc : charOfHex? hex = some c) :
    Escape ('u' :: hex) (some c)
  | braced {hex : List Char} {c : Char} (hn : '}' ∉ hex) (hc : charOfHex? hex = some c) :
    Escape ('u' :: '{' :: (hex ++ ['}'])) (some c)

-- The characters of hexadecimal numbers, a sign included.
def isHex (c : Char) : Bool :=
  c == '+' || (Decimal.digitValue? c).isSome

theorem isHex_of_foldl {base : Nat} {n? : Option Nat}
    (h : (s.foldl (fun n? c => do
      let n ← n?
      let d ← Decimal.digitValue? c
      if d < base then some (base * n + d) else none) n?).isSome) : n?.isSome ∧ ∀ d ∈ s, isHex d := by
  induction s generalizing n?
  case nil => simpa using h
  case cons c s ih =>
    obtain ⟨hn, hs⟩ := ih h
    cases n?
    case none => simp at hn
    case some =>
      cases hc : Decimal.digitValue? c
      case none   => simp [hc] at hn
      case some d => exact ⟨rfl, List.forall_mem_cons.mpr ⟨by simp [isHex, hc], hs⟩⟩

theorem isHex_of_readNat? {n : Nat} (h : Decimal.readNat? 16 hex = some n) : ∀ d ∈ hex, isHex d := by
  unfold Decimal.readNat? at h
  dsimp only at h
  split at h <;> split at h
  case h_1.isTrue | h_2.isTrue => cases h
  case h_1.isFalse =>
    have ⟨_, hs⟩ := isHex_of_foldl (Option.isSome_iff_exists.mpr ⟨n, h⟩)
    exact List.forall_mem_cons.mpr ⟨by decide, hs⟩
  case h_2.isFalse =>
    exact (isHex_of_foldl (Option.isSome_iff_exists.mpr ⟨n, h⟩)).2

theorem isHex_of_charOfHex? (h : charOfHex? hex = some c) : ∀ d ∈ hex, isHex d := by
  obtain ⟨n, hn, -⟩ := Option.bind_eq_some_iff.mp h
  exact isHex_of_readNat? hn

theorem charOfHex_eq_ok : charOfHex hex = .ok c ↔ charOfHex? hex = some c := by
  unfold charOfHex
  cases charOfHex? hex <;> simp

theorem fixedHex_append (hc : charOfHex? hex = some c) : fixedHex hex.length (hex ++ s) = .ok (c, s) := by
  simp [fixedHex, charOfHex_eq_ok.mpr hc, Except.map]

theorem fixedHex_inv {count : Nat} (h : fixedHex count s = .ok (c, rest)) :
    ∃ hex, s = hex ++ rest ∧ hex.length = count ∧ charOfHex? hex = some c := by
  unfold fixedHex at h
  split at h
  case isTrue => cases h
  case isFalse hl =>
    cases hc : charOfHex (s.take count) <;> rw [hc] at h <;> cases h
    exact ⟨s.take count, by simp, List.length_take_of_le (Nat.le_of_not_lt hl), charOfHex_eq_ok.mp hc⟩

theorem bracedHex_append (hn : '}' ∉ hex) (hc : charOfHex? hex = some c) :
    bracedHex (hex ++ '}' :: s) = .ok (c, s) := by
  have hx : ∀ d ∈ hex, (d != '}') = true := fun d hd => by
    simpa using fun he : d = '}' => hn (he ▸ hd)
  simp [bracedHex, List.takeWhile_append_of_pos hx, List.dropWhile_append_of_pos hx,
    charOfHex_eq_ok.mpr hc, Except.map]

theorem bracedHex_inv (h : bracedHex s = .ok (c, rest)) :
    ∃ hex, s = hex ++ '}' :: rest ∧ '}' ∉ hex ∧ charOfHex? hex = some c := by
  unfold bracedHex at h
  dsimp only at h
  split at h
  case h_1 => cases h
  case h_2 d r hd =>
    cases hc : charOfHex (s.takeWhile (· != '}')) <;> rw [hc] at h <;> cases h
    have hb : d = '}' := by
      have := List.head?_dropWhile_not (· != '}') s
      simpa [hd] using this
    refine ⟨s.takeWhile (· != '}'), ?_, fun hm => ?_, charOfHex_eq_ok.mp hc⟩
    · exact (hb ▸ hd) ▸ List.takeWhile_append_dropWhile.symm
    · simpa using List.mem_takeWhile_imp hm

-- Any other letter stands alone.
theorem escape_letter (hx : d ≠ 'x') (hu : d ≠ 'u') : ∃ c?, ∀ s, escape (d :: s) = .ok (c?, s) := by
  unfold escape
  simp only [hx, hu, if_false]
  repeat' split
  all_goals exact ⟨_, fun _ => rfl⟩

theorem escape_byte : escape ('x' :: s) = (fixedHex 2 s).map fun r => (some r.1, r.2) := rfl

theorem escape_braced : escape ('u' :: '{' :: s) = (bracedHex s).map fun r => (some r.1, r.2) := rfl

theorem escape_unit (h : s.head? ≠ some '{') :
    escape ('u' :: s) = (fixedHex 4 s).map fun r => (some r.1, r.2) := by
  unfold escape
  simp only [Char.reduceEq, if_false, if_true]
  split
  · simp at h
  · rfl

theorem escape_append (h : Escape e c?) : escape (e ++ s) = .ok (c?, s) := by
  cases h with
  | @letter d _ h =>
    obtain ⟨c?, hd⟩ := escape_letter (d := d) (by rintro rfl; cases h) (by rintro rfl; cases h)
    cases (hd []).symm.trans h
    exact hd s
  | byte hl hc =>
    rw [List.cons_append, escape_byte, ← hl, fixedHex_append hc]
    rfl
  | @unit hex c hl hc =>
    have hh : (hex ++ s).head? ≠ some '{' := by
      obtain ⟨d, r, rfl⟩ := List.exists_cons_of_length_eq_add_one hl
      rintro ⟨⟩
      have := isHex_of_charOfHex? hc '{' List.mem_cons_self
      revert this
      decide
    rw [List.cons_append, escape_unit hh, ← hl, fixedHex_append hc]
    rfl
  | braced hn hc =>
    rw [List.cons_append, List.cons_append, List.append_assoc, escape_braced, List.singleton_append,
      bracedHex_append hn hc]
    rfl

theorem escape_inv (h : escape s = .ok (c?, rest)) : ∃ e, s = e ++ rest ∧ Escape e c? := by
  cases s
  case nil => cases h
  case cons d s =>
  by_cases hx : d = 'x'
  case pos =>
    subst hx
    obtain ⟨⟨c, r⟩, hr, he⟩ := exists_of_map_eq_ok (escape_byte.symm.trans h)
    cases he
    obtain ⟨hex, rfl, hl, hc⟩ := fixedHex_inv hr
    exact ⟨'x' :: hex, rfl, .byte hl hc⟩
  by_cases hu : d = 'u'
  case neg =>
    obtain ⟨c', hd⟩ := escape_letter hx hu
    cases (hd s).symm.trans h
    exact ⟨[d], rfl, .letter (hd [])⟩
  case pos =>
    subst hu
    by_cases hb : s.head? = some '{'
    case pos =>
      obtain ⟨s, rfl⟩ := List.head?_eq_some_iff.mp hb
      obtain ⟨⟨c, r⟩, hr, he⟩ := exists_of_map_eq_ok (escape_braced.symm.trans h)
      cases he
      obtain ⟨hex, rfl, hn, hc⟩ := bracedHex_inv hr
      exact ⟨'u' :: '{' :: (hex ++ ['}']), by simp, .braced hn hc⟩
    case neg =>
      obtain ⟨⟨c, r⟩, hr, he⟩ := exists_of_map_eq_ok ((escape_unit hb).symm.trans h)
      cases he
      obtain ⟨hex, rfl, hl, hc⟩ := fixedHex_inv hr
      exact ⟨'u' :: hex, rfl, .unit hl hc⟩

theorem Escape.ne_nil (h : Escape e c?) : e ≠ [] := by
  cases h <;> simp

theorem not_isHex (hq : isQuote c ∨ c = '\\') : isHex c = false := by
  simp only [isQuote, Bool.or_eq_true, beq_iff_eq] at hq
  obtain ((rfl | rfl) | rfl) | rfl := hq <;> decide

-- Behind its first character nothing in an escape could end a string or begin another escape.
theorem Escape.not_mem_tail (h : Escape e c?) (hc : isQuote c ∨ c = '\\') : c ∉ e.tail := by
  have key {hex : List Char} {x : Char} (hx : charOfHex? hex = some x) : c ∉ hex := fun hm => by
    cases (isHex_of_charOfHex? hx c hm).symm.trans (not_isHex hc)
  cases h with
  | letter          => simp
  | byte _ hx       => exact key hx
  | unit _ hx       => exact key hx
  | braced _ hx     =>
    have hb : c ≠ '{' ∧ c ≠ '}' := by
      simp only [isQuote, Bool.or_eq_true, beq_iff_eq] at hc
      obtain ((rfl | rfl) | rfl) | rfl := hc <;> decide
    simp [key hx, hb.1, hb.2]

/-! ## Bodies -/

-- What is written between the quotes, and what it stands for, by the escapes `E` of a notation.
inductive Spells (E : List Char → Option Char → Prop) (quote : Char) : List Char → List Char → Prop where
  | nil : Spells E quote [] []
  | char {c : Char} {b s : List Char} (hq : c ≠ quote) (hb : c ≠ '\\') (h : Spells E quote b s) :
    Spells E quote (c :: b) (c :: s)
  | escape {e : List Char} {c? : Option Char} {b s : List Char} (he : E e c?) (h : Spells E quote b s) :
    Spells E quote ('\\' :: (e ++ b)) (c?.toList ++ s)

theorem spells_of_stringBody (h : stringBody quote fuel s = .ok (cs, rest)) :
    ∃ body, s = body ++ quote :: rest ∧ Spells Escape quote body cs := by
  induction fuel generalizing s cs
  case zero => cases h
  case succ fuel ih =>
    cases s
    case nil => cases h
    case cons c s =>
    unfold stringBody at h
    split at h
    case isTrue hq =>
      cases h
      exact ⟨[], by simp [hq], .nil⟩
    case isFalse hq =>
    split at h
    case isTrue => cases h
    case isFalse =>
    split at h
    case isTrue hb =>
      subst hb
      obtain ⟨⟨c?, s'⟩, he, h⟩ := exists_of_bind_eq_ok h
      obtain ⟨⟨cs', s''⟩, hr, h⟩ := exists_of_bind_eq_ok h
      cases h
      obtain ⟨e, rfl, he'⟩ := escape_inv he
      obtain ⟨body, rfl, hs⟩ := ih hr
      exact ⟨'\\' :: (e ++ body), by simp, .escape he' hs⟩
    case isFalse hb =>
      obtain ⟨⟨cs', s'⟩, hr, h⟩ := exists_of_bind_eq_ok h
      cases h
      obtain ⟨body, rfl, hs⟩ := ih hr
      exact ⟨c :: body, by simp, .char hq hb hs⟩

-- What comes behind the closing quote makes no difference.
theorem stringBody_append (h : stringBody quote fuel s = .ok (cs, rest)) (hf : fuel ≤ n) :
    stringBody quote n (s ++ more) = .ok (cs, rest ++ more) := by
  induction fuel generalizing s cs n
  case zero => cases h
  case succ fuel ih =>
    obtain _ | n := n
    · cases hf
    have hf := Nat.le_of_succ_le_succ hf
    cases s
    case nil => cases h
    case cons c s =>
    rw [List.cons_append]
    unfold stringBody at h ⊢
    split at h
    case isTrue hq =>
      cases h
      rw [if_pos hq]
    case isFalse hq =>
    rw [if_neg hq]
    split at h
    case isTrue => cases h
    case isFalse hi =>
    -- The closing quote is still to come, so nothing new stands next.
    have hs : (s ++ more).head? = s.head? := by
      cases s
      case cons => rfl
      case nil =>
        have hn : stringBody quote fuel [] = .error .unexpectedEnd := by cases fuel <;> rfl
        rw [hn] at h
        split at h <;> cases h
    rw [hs, if_neg hi]
    split at h
    case isTrue hb =>
      obtain ⟨⟨c?, s'⟩, he, h⟩ := exists_of_bind_eq_ok h
      obtain ⟨⟨cs', s''⟩, hr, h⟩ := exists_of_bind_eq_ok h
      cases h
      obtain ⟨e, rfl, he'⟩ := escape_inv he
      rw [if_pos hb, List.append_assoc, escape_append he']
      simp [bind, Except.bind, pure, Except.pure, ih hr hf]
    case isFalse hb =>
      obtain ⟨⟨cs', s'⟩, hr, h⟩ := exists_of_bind_eq_ok h
      cases h
      rw [if_neg hb]
      simp [bind, Except.bind, pure, Except.pure, ih hr hf]

theorem string_append (h : string quote s = .ok (k, rest)) : string quote (s ++ more) = .ok (k, rest ++ more) := by
  obtain ⟨⟨cs, r⟩, hr, he⟩ := exists_of_map_eq_ok h
  cases he
  rw [string, stringBody_append hr (by simp)]
  rfl

theorem Spells.length_le (h : Spells Escape quote body s) : s.length ≤ body.length := by
  induction h
  case nil           => exact Nat.le_refl _
  case char ih       => exact Nat.succ_le_succ ih
  case escape c? _ _ he _ ih =>
    have := List.length_pos_iff.mpr he.ne_nil
    cases c? <;> simp <;> omega

-- An escape is longer than what it stands for.
theorem Spells.eq_iff (h : Spells Escape quote body s) : s = body ↔ '\\' ∉ body := by
  induction h
  case nil             => simp
  case char hb _ ih    => simp [ih, hb.symm]
  case escape e c? b s he h _ =>
    refine iff_of_false (fun hs => ?_) (by simp)
    have hl := congrArg List.length hs
    have := List.length_pos_iff.mpr he.ne_nil
    have := h.length_le
    cases c? <;> simp at hl <;> omega

-- Without a backslash there are no escapes.
theorem Spells.plain (h : Spells E quote body s) (hb : '\\' ∉ body) : Spells F quote body s := by
  induction h
  case nil => exact .nil
  case char hq hc _ ih =>
    simp only [List.mem_cons, not_or] at hb
    exact .char hq hc (ih hb.2)
  case escape => simp at hb

/-! ## Strings -/

-- The whole text is one string in such quotes, with nothing behind the closing one.
def IsString (quote : Char) (q s : String) : Prop :=
  isQuote quote ∧ ∃ t, q.toList = quote :: t ∧ string quote t = .ok (s, [])

theorem IsString.exists_body {q s : String} (h : IsString quote q s) :
    isQuote quote ∧ ∃ body, q.toList = quote :: (body ++ [quote]) ∧ Spells Escape quote body s.toList := by
  obtain ⟨hq, t, ht, h⟩ := h
  obtain ⟨⟨cs, r⟩, hr, he⟩ := exists_of_map_eq_ok h
  cases he
  obtain ⟨body, rfl, hb⟩ := spells_of_stringBody hr
  exact ⟨hq, body, ht, by simpa using hb⟩

theorem solid_of_isQuote (hq : isQuote c) : Text.isBlank c = false ∧ c ≠ '/' ∧ c ≠ ']' := by
  simp only [isQuote, Bool.or_eq_true, beq_iff_eq] at hq
  obtain (rfl | rfl) | rfl := hq <;> decide

theorem value_isQuote (hq : isQuote quote) :
    value whole room (quote :: s) = (string quote s).map fun r => (.str r.1, r.2) := by
  obtain ⟨hb, hs, -⟩ := solid_of_isQuote hq
  rw [value, skip_of_solid hb hs]
  simp only [isQuote, Bool.or_eq_true, beq_iff_eq] at hq
  obtain (rfl | rfl) | rfl := hq <;> rfl

theorem IsString.parse {q s : String} (h : IsString quote q s) : Literal.parse q = .ok (.str s) := by
  obtain ⟨hq, t, ht, h⟩ := h
  rw [Literal.parse, ht, value_isQuote hq, h]
  rfl

theorem IsString.parse_list {q s : String} (h : IsString quote q s) :
    Literal.parse ("[" ++ q ++ "]") = .ok (.arr [.str s]) := by
  obtain ⟨hq, t, ht, h⟩ := h
  obtain ⟨hb, hs, hc⟩ := solid_of_isQuote hq
  have hl : ("[" ++ q ++ "]").toList = '[' :: (quote :: (t ++ [']'])) := by simp [ht]
  have hv {whole room : Nat} : value whole room (quote :: (t ++ [']'])) = .ok (.str s, [']']) := by
    rw [value_isQuote hq, string_append h]
    rfl
  have hi {whole room n : Nat} :
      items whole (value whole room) (n + 1) (quote :: (t ++ [']'])) = .ok ([.str s], []) := by
    rw [items, skip_of_solid hb hs]
    split
    case h_1 h => exact absurd (List.cons.inj h).1 hc
    case h_2   =>
      rw [hv]
      rfl
  rw [Literal.parse, hl, maxNesting, value_list, hi]
  rfl

/-! ## Formulas -/

-- A formula ends its texts at this quote here.
def Closes (quote : Char) (s rest : List Char) : Prop :=
  ∃ text, Token.quotedBody quote s = some (text, rest)

theorem closes_quote : Closes quote (quote :: rest) rest :=
  ⟨[], by rw [Token.quotedBody.eq_def]; simp⟩

theorem Closes.plain (h : Closes quote s rest) (hq : c ≠ quote) (hb : c ≠ '\\') :
    Closes quote (c :: s) rest := by
  obtain ⟨text, ht⟩ := h
  exact ⟨c :: text, by rw [Token.quotedBody.eq_def]; simp [hq, hb, ht]⟩

theorem Closes.escape (h : Closes quote s rest) (hq : quote ≠ '\\') : Closes quote ('\\' :: c :: s) rest := by
  obtain ⟨text, ht⟩ := h
  exact ⟨c :: text, by rw [Token.quotedBody.eq_def]; simp [hq.symm, ht]⟩

theorem Closes.append (h : Closes quote s rest) (hq : quote ∉ t) (hb : '\\' ∉ t) :
    Closes quote (t ++ s) rest := by
  induction t
  case nil => exact h
  case cons c t ih =>
    simp only [List.mem_cons, not_or] at hq hb
    exact (ih hq.2 hb.2).plain (Ne.symm hq.1) (Ne.symm hb.1)

theorem Spells.closes (h : Spells Escape quote body s) (hq : isQuote quote) :
    Closes quote (body ++ quote :: rest) rest := by
  have hb : quote ≠ '\\' := by
    rintro rfl
    cases hq
  induction h
  case nil           => exact closes_quote
  case char hc hd _ ih => exact ih.plain hc hd
  case escape e c? b s he _ ih =>
    obtain ⟨d, t, rfl⟩ := List.exists_cons_of_ne_nil he.ne_nil
    have hb' : '\\' ∉ t := he.not_mem_tail (.inr rfl)
    have hq' : quote ∉ t := he.not_mem_tail (.inl hq)
    have ha : '\\' :: (d :: t ++ b) ++ quote :: rest = '\\' :: d :: (t ++ (b ++ quote :: rest)) := by simp
    rw [ha]
    exact (ih.append hq' hb').escape hb

/-! ## JSON -/

theorem digitValue?_lt {n : Nat} (h : Decimal.digitValue? c = some n) : n < 16 := by
  unfold Decimal.digitValue? at h
  split at h
  case isTrue hc =>
    cases h
    have : c.toNat ≤ 57 := hc.2
    have : 48 ≤ c.toNat := hc.1
    simp only [Char.reduceToNat]
    omega
  case isFalse =>
  split at h
  case isTrue hc =>
    cases h
    have : c.toNat ≤ 102 := hc.2
    simp only [Char.reduceToNat]
    omega
  case isFalse =>
  split at h
  case isTrue hc =>
    cases h
    have : c.toNat ≤ 70 := hc.2
    simp only [Char.reduceToNat]
    omega
  case isFalse => cases h

-- Four digits without a sign are the same number in both notations.
theorem readNat?_of_hex4 {n : Nat} (hl : hex.length = 4) (h : Json.hex4 (hex ++ s) = some (n, rest)) :
    Decimal.readNat? 16 hex = some n ∧ rest = s := by
  match hex, hl with
  | [a, b, c, d], _ =>
    obtain ⟨a', ha, h⟩ := Option.bind_eq_some_iff.mp h
    obtain ⟨b', hb, h⟩ := Option.bind_eq_some_iff.mp h
    obtain ⟨c', hc, h⟩ := Option.bind_eq_some_iff.mp h
    obtain ⟨d', hd, h⟩ := Option.bind_eq_some_iff.mp h
    cases h
    have hp : a ≠ '+' := by rintro rfl; cases ha
    refine ⟨?_, rfl⟩
    simp [Decimal.readNat?, hp, ha, hb, hc, hd, digitValue?_lt ha, digitValue?_lt hb, digitValue?_lt hc,
      digitValue?_lt hd]
    omega

-- A number that is a character is no half of a pair.
theorem unicodeEscape_eq (hl : hex.length = 4) (hc : charOfHex? hex = some c)
    (hj : Json.unicodeEscape (hex ++ s) = some (d, rest)) : c = d ∧ rest = s := by
  obtain ⟨⟨n, r⟩, hx, hu⟩ := Option.bind_eq_some_iff.mp hj
  obtain ⟨hn, rfl⟩ := readNat?_of_hex4 hl hx
  obtain ⟨m, hm, hc⟩ := Option.bind_eq_some_iff.mp hc
  cases hn.symm.trans hm
  split at hc
  case isFalse => cases hc
  case isTrue hv =>
    cases hc
    have hh : Json.isLeading n = false ∧ Json.isTrailing n = false := by
      unfold Nat.isValidChar at hv
      simp only [Json.isLeading, Json.isTrailing, Bool.and_eq_false_iff, decide_eq_false_iff_not]
      omega
    dsimp only at hu
    rw [hh.1, hh.2] at hu
    cases hu
    exact ⟨rfl, rfl⟩

theorem hex4_brace : Json.hex4 ('{' :: s) = none := by
  unfold Json.hex4
  split
  case h_1 h =>
    obtain ⟨rfl, -⟩ := List.cons.inj h
    rfl
  case h_2 => rfl

theorem Escape.json (h : Escape e c?) (hj : Json.escape (e ++ s) = some (c, rest)) :
    c? = some c ∧ rest = s := by
  cases h with
  | letter h =>
    rw [List.singleton_append] at hj
    unfold Json.escape at hj
    split at hj
    case h_10 => cases hj
    case h_9 hd =>
      cases hd
      cases h
    all_goals
      rename_i hd
      cases hd
      cases h
      cases hj
      exact ⟨rfl, rfl⟩
  | byte => cases hj
  | unit hl hc =>
    obtain ⟨rfl, rfl⟩ := unicodeEscape_eq hl hc hj
    exact ⟨rfl, rfl⟩
  | @braced hex =>
    have hn : Json.escape ('u' :: '{' :: (hex ++ ['}']) ++ s) = none := by
      rw [List.cons_append, List.cons_append]
      exact Option.bind_eq_none_iff.mpr fun r hr => by cases hex4_brace.symm.trans hr
    cases hn.symm.trans hj

theorem Spells.json (h : Spells Escape '"' body s)
    (hj : Json.stringBody fuel (body ++ '"' :: t) = some (cs, rest)) : cs = s ∧ rest = t := by
  induction h generalizing fuel cs
  all_goals
    obtain _ | fuel := fuel
    · cases hj
  case nil =>
    cases hj
    exact ⟨rfl, rfl⟩
  case char hq hb _ ih =>
    rw [List.cons_append, Json.stringBody] at hj
    · split at hj
      · cases hj
      · obtain ⟨⟨cs', r⟩, hr, hj⟩ := Option.bind_eq_some_iff.mp hj
        cases hj
        obtain ⟨rfl, rfl⟩ := ih hr
        exact ⟨rfl, rfl⟩
    all_goals simp_all
  case escape e c? b s he _ ih =>
    have ha : '\\' :: (e ++ b) ++ '"' :: t = '\\' :: (e ++ (b ++ '"' :: t)) := by simp
    rw [ha, Json.stringBody] at hj
    obtain ⟨⟨c, r⟩, hr, hj⟩ := Option.bind_eq_some_iff.mp hj
    obtain ⟨⟨cs', r'⟩, hr', hj⟩ := Option.bind_eq_some_iff.mp hj
    cases hj
    obtain ⟨rfl, rfl⟩ := he.json hr
    obtain ⟨rfl, rfl⟩ := ih hr'
    exact ⟨rfl, rfl⟩

variable {collect : List (String × Tree) → Fields}

theorem json_value_string :
    Json.value collect room ('"' :: s) =
      (Json.stringBody (s.length + 1) s).map fun r => (.str (.ofList r.1), r.2) := by
  unfold Json.value Json.string
  exact Option.map_map (fun r : String × List Char => (Tree.str r.1, r.2))
    (fun r : List Char × List Char => (String.ofList r.1, r.2)) _

theorem json_value_list :
    Json.value collect (room + 1) ('[' :: s) = Json.list (Json.value collect room) s := by
  rw [Json.value.eq_def]
  rfl

theorem json_skip_quote (hq : isQuote quote) : Json.skip (quote :: s) = quote :: s := by
  simp only [isQuote, Bool.or_eq_true, beq_iff_eq] at hq
  obtain (rfl | rfl) | rfl := hq <;> rfl

theorem json_value_other (hq : isQuote quote) (hd : quote ≠ '"') :
    Json.value collect room (quote :: s) = none := by
  simp only [isQuote, Bool.or_eq_true, beq_iff_eq] at hq
  obtain (rfl | rfl) | rfl := hq
  · exact absurd rfl hd
  · unfold Json.value; rfl
  · unfold Json.value; rfl

-- What JSON reads in quotes, if it reads them, is the same string.
theorem Spells.json_value (h : Spells Escape quote body k.toList) (hq : isQuote quote) :
    Gives (· = (.str k, t)) (Json.value collect room (quote :: (body ++ quote :: t))) := by
  by_cases hd : quote = '"'
  case pos =>
    subst hd
    rw [json_value_string]
    refine Gives.map (P := fun r => r.1 = k.toList ∧ r.2 = t) (fun r hr => h.json hr) fun r hr => ?_
    rw [hr.1, hr.2, String.ofList_toList]
  case neg =>
    rw [json_value_other hq hd]
    exact gives_none

theorem IsString.ofJson? (h : IsString quote q k) : Gives (· = .str k) (Tree.ofJson? q) := by
  obtain ⟨hq, body, ht, hb⟩ := h.exists_body
  unfold Tree.ofJson? Json.parse? Json.parseWith?
  rw [ht, json_skip_quote hq]
  split
  case h_1 hv =>
    cases hb.json_value hq _ hv
    exact gives_some rfl
  case h_2 => exact gives_none

theorem IsString.ofJson?_eq_none (h : IsString quote q k) (hd : quote ≠ '"') : Tree.ofJson? q = none := by
  obtain ⟨hq, t, ht, -⟩ := h
  unfold Tree.ofJson? Json.parse? Json.parseWith?
  rw [ht, json_skip_quote hq, json_value_other hq hd]

theorem IsString.ofJson?_list (h : IsString quote q k) :
    Gives (· = .arr [.str k]) (Tree.ofJson? ("[" ++ q ++ "]")) := by
  obtain ⟨hq, body, ht, hb⟩ := h.exists_body
  have hl : ("[" ++ q ++ "]").toList = '[' :: (quote :: (body ++ quote :: [']'])) := by simp [ht]
  have hv : Gives (· = (.arr [.str k], []))
      (Json.value Fields.ofList Json.maxNesting ('[' :: (quote :: (body ++ quote :: [']'])))) := by
    rw [Json.maxNesting, json_value_list, Json.list, json_skip_quote hq]
    split
    case h_1 h => exact absurd (List.cons.inj h).1 (solid_of_isQuote hq).2.2
    case h_2 =>
      refine Gives.map (P := (· = ([.str k], []))) ?_ fun r hr => by rw [hr]
      rw [List.length_cons, Json.items, json_skip_quote hq]
      refine Gives.bind (hb.json_value hq) fun r hr => ?_
      subst hr
      exact gives_some rfl
  unfold Tree.ofJson? Json.parse? Json.parseWith?
  rw [hl, show Json.skip ('[' :: (quote :: (body ++ quote :: [']']))) = _ from rfl]
  split
  case h_1 h =>
    cases hv _ h
    exact gives_some rfl
  case h_2 => exact gives_none

end Storyworld.Literal
