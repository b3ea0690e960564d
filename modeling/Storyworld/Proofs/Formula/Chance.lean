import Storyworld.Formula.Eval
import Storyworld.Proofs.Formula.Names

/-!
Chance in formulas. The dice are thrown for one function only, and to call it a formula has to name it.
-/

namespace Storyworld

namespace Token

variable {c quote : Char} {s rest body : List Char} {tokens : List Token} {name : String}

theorem suffix_exponentPart : (exponentPart s).2 <:+ s := by
  unfold exponentPart
  split
  · exact List.suffix_rfl
  · dsimp only
    split
    · exact (List.dropWhile_suffix _).trans <| (List.drop_suffix _ _).trans (List.suffix_cons _ _)
    · exact List.suffix_rfl

theorem suffix_numeral (h : numeral s = .ok (tokens, rest)) : rest <:+ s := by
  unfold numeral at h
  dsimp only at h
  split at h
  · cases h
  · cases h
    exact suffix_exponentPart.trans (List.dropWhile_suffix _)

theorem suffix_quotedBody (h : quotedBody quote s = some (body, rest)) : rest <:+ s := by
  fun_induction quotedBody quote s generalizing body
  case case1 | case3 => simp at h
  case case2 =>
    cases h
    exact List.suffix_cons _ _
  case case4 ih =>
    obtain ⟨⟨b, r⟩, hr, he⟩ := Option.map_eq_some_iff.mp h
    cases he
    exact (ih hr).trans <| (List.suffix_cons _ _).trans (List.suffix_cons _ _)
  case case5 ih =>
    obtain ⟨⟨b, r⟩, hr, he⟩ := Option.map_eq_some_iff.mp h
    cases he
    exact (ih hr).trans (List.suffix_cons _ _)

theorem suffix_next (h : next c s = .ok (tokens, rest)) : rest <:+ c :: s := by
  cases isNext h with
  | blank | mark  => exact List.suffix_cons c s
  | numeral _ _ h => exact suffix_numeral h
  | name          => exact (List.dropWhile_suffix _).trans (List.suffix_cons c s)
  | text h        => exact (suffix_quotedBody h).trans (List.suffix_cons c s)
  | power         => exact (List.tail_suffix s).trans (List.suffix_cons c s)

theorem infix_of_readAll (h : readAll s = .ok tokens) (hn : .name name ∈ tokens) :
    name.toList <:+: s := by
  fun_induction readAll s generalizing tokens
  case case1 => cases h; cases hn
  case case2 => cases h
  case case3 c s tokens' rest hc _ ih =>
    obtain ⟨more, hr, rfl⟩ := exists_of_readAll_cons hc (by rwa [readAll_of_next hc])
    obtain hn | hn := List.mem_append.mp hn
    · exact ⟨[], rest, by simpa using (name_of_next hc hn).2.symm⟩
    · exact (ih hr hn).trans (suffix_next hc).isInfix

end Token

namespace Formula

variable {α β : Type} {e : Formula} {es : List Formula} {text : String} {x : Eval α} {f : α → Eval β}

-- The outcome is settled beforehand, and nothing is drawn.
def IsSettled (x : Eval α) : Prop :=
  ∃ result, x = settled result

theorem isSettled_settled (result : Except FormulaError α) : IsSettled (settled result) :=
  ⟨result, rfl⟩

theorem isSettled_pure (a : α) : IsSettled (pure a : Eval α) :=
  ⟨.ok a, rfl⟩

theorem IsSettled.bind (h : IsSettled x) (hf : ∀ a, IsSettled (f a)) : IsSettled (x >>= f) := by
  obtain ⟨_ | a, rfl⟩ := h
  · exact ⟨.error _, rfl⟩
  · exact hf a

-- It is no call that throws the dice.
def IsChanceless : Formula → Prop
  | call name _ => name ≠ "random"
  | _ => True

theorem isSettled_eval (h : e.Every IsChanceless) : IsSettled (eval e) := by
  induction e using Formula.rec
    (motive_2 := fun es => EveryOf IsChanceless es → IsSettled (evalAll es)) with
  | number | text => exact isSettled_pure _
  | symbol name =>
    rw [eval]
    cases Quantity.constant? name
    · exact ⟨.error _, rfl⟩
    · exact isSettled_pure _
  | neg e ih | factorial e ih =>
    rw [eval]
    exact (ih h.2).bind fun _ => isSettled_settled _
  | binary op a b iha ihb =>
    rw [eval]
    exact (iha h.2.1).bind fun _ => (ihb h.2.2).bind fun _ => isSettled_settled _
  | call name args ih =>
    rw [eval]
    refine (ih h.2).bind fun args => ?_
    rw [if_neg h.1]
    exact isSettled_settled _
  | matrix items ih =>
    rw [eval]
    exact (ih h.2).bind fun _ => isSettled_pure _
  | nil => exact isSettled_pure _
  | cons e es ih ihs =>
    rename_i h
    rw [evalAll]
    exact (ih h.1).bind fun _ => (ihs h.2).bind fun _ => isSettled_pure _

-- A text without the name has no such call.
theorem chanceless_of_parse (h : ¬"random".toList <:+: text.toList) (he : parse text = .ok e) :
    e.Every IsChanceless := by
  have hn : e.Every (IsNamed (· ≠ "random")) := by
    refine yields_named (fun tokens hs name hn => ?_) e he
    rintro rfl
    exact h (Token.infix_of_readAll hs hn)
  exact hn.imp (fun e he _ => by cases e <;> first | exact he | trivial) hn

end Formula

end Storyworld
