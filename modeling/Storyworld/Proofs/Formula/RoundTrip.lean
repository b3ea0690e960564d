import Storyworld.Proofs.Formula.Names
import Storyworld.Proofs.Formula.Value

/-!
Formulas written out and parsed again. A formula that has been parsed comes back regrouped, if the
parentheses of its text leave room for it, and then it has the value that it had.
-/

namespace Storyworld.Formula

variable {e lhs : Formula} {source : String} {x : Float} {s : List Token} {op? : Token → Option Op}
  {operand : Reader Formula} {fuel room : Nat}

-- There is no text in the formula, and a number is parsed to itself.
def PrintsBack : Formula → Prop
  | number x => parse (number x).display = .ok (number x)
  | text _ => False
  | _ => True

-- A sign makes an operand or a whole row, but no number.
def NoNumber (r : Formula × List Token) : Prop :=
  ∀ x, r.1 ≠ number x

theorem noNumber_chain (h : NoNumber (lhs, s)) : Yields NoNumber (chain op? operand fuel lhs s) := by
  induction fuel generalizing lhs s
  case zero => exact yields_ok h
  case succ fuel ih =>
    cases s
    case nil => exact yields_ok h
    case cons t s =>
      simp only [chain]
      split
      case h_1 => exact yields_ok h
      case h_2 => exact yields_bind fun _ => ih (by simp [NoNumber])

theorem noNumber_chained (h : Yields NoNumber (operand s)) : Yields NoNumber (chained op? operand s) :=
  h.bind fun _ h => noNumber_chain h

theorem noNumber_signed : Yields NoNumber (signed room (.op '-' :: s)) := by
  cases room
  case zero => exact yields_error
  case succ =>
    rw [signed]
    exact Yields.map (P := fun _ => True) (fun _ _ => trivial) (by simp [NoNumber])

theorem exists_readAll (h : parse source = .ok e) : ∃ s, Token.readAll source.toList = .ok s := by
  cases hs : Token.readAll source.toList
  case error => rw [parse, hs] at h; cases h
  case ok s  => exact ⟨s, rfl⟩

theorem parse_words (h : Token.readAll source.toList = .ok e.words) :
    parse source = within (e.nesting + 1) maxNesting (.ok e.regrouped) := by
  rw [parse_of_readAll h, expression_words, within_bind]
  rfl

theorem parse_display (h : e.Every IsReadable) :
    parse e.display = within (e.nesting + 1) maxNesting (.ok e.regrouped) := by
  refine parse_words ?_
  rw [display, String.toList_ofList]
  exact (fronts_write h Token.ends_nil).readAll

theorem parse_ne_number (h : Token.readAll source.toList = .ok (.op '-' :: s)) :
    parse source ≠ .ok (number x) := by
  suffices hy : Yields (fun e => ∀ x, e ≠ number x) (parse source) from fun hp => hy _ hp x rfl
  rw [parse_of_readAll h]
  refine (noNumber_chained (noNumber_chained noNumber_signed)).bind ?_
  rintro ⟨e, _ | ⟨t, rest⟩⟩ he
  case nil  => exact yields_ok he
  case cons => exact yields_error

theorem PrintsBack.isReadable (h : (number x).PrintsBack) : (number x).IsReadable := by
  have hd : (number x).display.toList = (Decimal.showSettled x).toList := by
    rw [display, write, String.toList_ofList]
  obtain ⟨s, hr⟩ := exists_readAll h
  obtain ⟨r, hs⟩ | hn | hs := signed_or_name_or_numeral (x := x)
  · have hm : Token.Fronts ['-'] r [.op '-'] := Token.fronts_mark (by decide)
    rw [Token.Fronts, List.singleton_append, ← hs, ← hd, hr] at hm
    cases hr' : Token.readAll r <;> rw [hr'] at hm <;> cases hm
    exact absurd h (parse_ne_number hr)
  · -- It would be parsed to the name.
    have hp : parse (number x).display = _ := parse_display (e := symbol (Decimal.showSettled x)) hn
    cases h.symm.trans hp
  · have hn := Token.readAll_numeral hs
    rw [← hd, hr] at hn
    cases hx : Decimal.readFloat? (number x).display.toList <;> rw [hx] at hn <;> cases hn
    rename_i y
    cases h.symm.trans (parse_words (e := number y) hr)
    rwa [hd] at hr

theorem every_isReadable (h : parse source = .ok e) (hp : e.Every PrintsBack) : e.Every IsReadable := by
  refine (named_of_parse h).imp (fun e hn hp => ?_) hp
  cases e
  case number => exact hp.isReadable
  case text => exact hp
  case symbol | call => exact hn
  all_goals trivial

-- What has been parsed, is written out and parsed again has the old value wherever it had one. Where the
-- text nests too deep, nothing but this is the matter.
theorem parse_display_of_parse (h : parse source = .ok e) (hp : e.Every PrintsBack) :
    (e.nesting < maxNesting → ∃ e', parse e.display = .ok e' ∧
      (e.Every KeepsRemainders → ∀ i v, e.value i = some v → e'.value i = some v)) ∧
    (maxNesting ≤ e.nesting → parse e.display = .error .tooDeep) := by
  have hd := parse_display (every_isReadable h hp)
  constructor
  case left =>
    intro hn
    refine ⟨e.regrouped, hd.trans (if_pos hn), fun hk i v => value_regrouped hk⟩
  case right =>
    intro hn
    exact hd.trans (if_neg (Nat.not_le_of_lt (Nat.lt_succ_of_le hn)))

-- The hits are scaled by armor per level.
def wound : Formula :=
  binary .mul (symbol "hits") (binary .div (symbol "armor") (symbol "level"))

def woundWords : List Token :=
  [.name "hits", .op '*', .openParen, .name "armor", .op '/', .name "level", .closeParen]

theorem parse_wound : parse "hits * (armor / level)" = .ok wound := by
  rw [parse_of_readAll (s := woundWords) (ok_of_toOption (by decide +kernel))]
  rfl

def duel : Interpretation where
  symbol name := if name = "hits" then 3 else if name = "armor" then 4 else 2
  call _ _ := none
  power _ _ := none
  factorial _ := none

theorem wound_duel : wound.value duel = some (.number 6) := by
  have h : (3 : ℚ) * (4 / 2) = 6 := by norm_num
  simp [wound, value, duel, Interpretation.operate, Exact.divide, Exact.product, Exact.map, Exact.zip,
    Exact.isMatrix, h]

-- The parentheses are left out, and three hits still take six.
theorem wound_restored :
    parse "hits * (armor / level)" = .ok wound ∧ wound.Every PrintsBack ∧
      wound.Every KeepsRemainders ∧ wound.nesting < maxNesting ∧
      ∃ e, parse wound.display = .ok e ∧ e.value duel = some (.number 6) := by
  have hp : wound.Every PrintsBack := by simp [wound, Every, PrintsBack]
  have hk : wound.Every KeepsRemainders := by simp [wound, Every, KeepsRemainders, rowHasMod]
  obtain ⟨e, he, hv⟩ := (parse_display_of_parse parse_wound hp).1 (by decide)
  exact ⟨parse_wound, hp, hk, by decide, e, he, hv hk duel _ wound_duel⟩

-- A cry of many marks is read in one breath, and is written with parentheses for each mark but the
-- first. With 65 marks they nest too deep.
def cry : String :=
  .ofList ('x' :: List.replicate 65 '!')

def cried : Formula :=
  factorial^[65] (symbol "x")

def cryWords : List Token :=
  .name "x" :: List.replicate 65 (.op '!')

theorem cried_strands :
    parse cry = .ok cried ∧ cried.Every PrintsBack ∧ parse cried.display = .error .tooDeep := by
  refine ⟨?_, ?_, ?_⟩
  · rw [parse_of_readAll (s := cryWords) (ok_of_toOption (by decide +kernel))]
    rfl
  · simp [cried, Every, PrintsBack]
  · have hx : Token.IsName "x" := ⟨'x', [], by decide⟩
    rw [parse_display (by simp [cried, Every, IsReadable, hx])]
    exact if_neg (by decide)

end Storyworld.Formula
