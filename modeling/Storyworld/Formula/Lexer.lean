import Storyworld.Formula.Error
import Storyworld.Text.Blank
import Storyworld.Text.Letters

/-!
From the text of a formula to its words. Every step leaves a shorter text, see `length_next_le`.
-/

namespace Storyworld.Token

def signPart : List Char → List Char
  | '+' :: _ => ['+']
  | '-' :: _ => ['-']
  | _ => []

-- `e` and digits at the start of a text; without digits the `e` is a name.
def exponentPart (s : List Char) : List Char × List Char :=
  match s with
  | [] => ([], [])
  | c :: r =>
    let sign := signPart r
    let r := r.drop sign.length
    if (c == 'e' || c == 'E') && r.head?.any Char.isDigit then
      (c :: (sign ++ r.takeWhile Char.isDigit), r.dropWhile Char.isDigit)
    else ([], s)

def inNumeral (c : Char) : Bool :=
  c.isDigit || c == '.'

-- A name or a parenthesis right behind the numeral is a factor.
def numeral (s : List Char) : Except FormulaError (List Token × List Char) :=
  let (exponent, rest) := exponentPart (s.dropWhile inNumeral)
  let raw := s.takeWhile inNumeral ++ exponent
  match Decimal.readFloat? raw with
  | none => .error (.malformedNumber (.ofList raw))
  | some x =>
    let factor := rest.head?.any fun c => Text.startsName c || c == '('
    .ok (number x :: (if factor then [op '*'] else []), rest)

-- A backslash takes the next character as it is.
def quotedBody (quote : Char) : List Char → Option (List Char × List Char)
  | [] => none
  | c :: s =>
    if c = quote then some ([], s)
    else if c = '\\' then
      match s with
      | [] => none
      | d :: s => (quotedBody quote s).map fun (body, rest) => (d :: body, rest)
    else (quotedBody quote s).map fun (body, rest) => (c :: body, rest)

def mark? (c : Char) : Option Token :=
  if ['+', '-', '*', '/', '%', '^', '!'].contains c then some (op c)
  else if c = '(' then some openParen
  else if c = ')' then some closeParen
  else if c = '[' then some openBracket
  else if c = ']' then some closeBracket
  else if c = ',' then some comma
  else if c = '.' then some dot
  else none

-- The words that a text starts with, none for a blank, and the text behind them.
def next (c : Char) (s : List Char) : Except FormulaError (List Token × List Char) :=
  if Text.isBlank c then .ok ([], s)
  else if c.isDigit || (c == '.' && s.head?.any Char.isDigit) then numeral (c :: s)
  else if Text.startsName c then
    .ok ([name (.ofList (c :: s.takeWhile Text.continuesName))], s.dropWhile Text.continuesName)
  else if c = '"' ∨ c = '\'' then
    match quotedBody c s with
    | none => .error .unexpectedEnd
    | some (body, rest) => .ok ([text (.ofList body)], rest)
  else if c = '*' ∧ s.head? = some '*' then .ok ([op '^'], s.tail)
  else match mark? c with
    | some token => .ok ([token], s)
    | none => .error (.unexpectedChar c)

variable {c quote : Char} {s rest body : List Char} {tokens : List Token}

theorem length_exponentPart_le : (exponentPart s).2.length ≤ s.length := by
  unfold exponentPart
  split
  · exact Nat.le_refl _
  · dsimp only
    split
    · refine Nat.le_trans (List.dropWhile_sublist _).length_le ?_
      simp only [List.length_drop, List.length_cons]
      omega
    · exact Nat.le_refl _

theorem length_quotedBody_lt (h : quotedBody quote s = some (body, rest)) :
    rest.length < s.length := by
  fun_induction quotedBody quote s generalizing body with
  | case1 | case3 => simp at h
  | case2 => simp_all
  | case4 _ _ _ ih | case5 _ _ _ _ ih =>
    obtain ⟨⟨b, r⟩, hr, he⟩ := Option.map_eq_some_iff.1 h
    cases he
    have := ih hr
    simp only [List.length_cons]
    omega

theorem length_numeral_le (hc : inNumeral c)
    (h : numeral (c :: s) = .ok (tokens, rest)) : rest.length ≤ s.length := by
  simp only [numeral] at h
  split at h
  · cases h
  · simp only [Except.ok.injEq, Prod.mk.injEq] at h
    rw [← h.2]
    refine Nat.le_trans length_exponentPart_le ?_
    rw [List.dropWhile_cons_of_pos hc]
    exact (List.dropWhile_sublist _).length_le

theorem length_next_le (h : next c s = .ok (tokens, rest)) : rest.length ≤ s.length := by
  unfold next at h
  split at h
  · cases h; exact Nat.le_refl _
  split at h
  · rename_i hc
    refine length_numeral_le ?_ h
    revert hc
    cases hd : c.isDigit <;> simp +contextual [inNumeral, hd]
  split at h
  · cases h; exact (List.dropWhile_sublist _).length_le
  split at h
  · split at h
    · cases h
    · rename_i hb
      cases h
      exact Nat.le_of_lt (length_quotedBody_lt hb)
  split at h
  · cases h; simp
  split at h <;> cases h
  exact Nat.le_refl _

def readAll (s : List Char) : Except FormulaError (List Token) :=
  match s with
  | [] => .ok []
  | c :: s => match h : next c s with
    | .error e => .error e
    | .ok (tokens, rest) =>
      have : rest.length < s.length + 1 := Nat.lt_succ_of_le (length_next_le h)
      (tokens ++ ·) <$> readAll rest
termination_by s.length

end Storyworld.Token
