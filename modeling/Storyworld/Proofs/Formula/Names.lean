import Storyworld.Proofs.Formula.Written
import Storyworld.Proofs.Yields

/-!
Where the names in a formula come from: each one is a word of the text that the formula is read from.
-/

namespace Storyworld.Formula

variable {N : String → Prop} {α : Type} {P : α → Prop} {op? : Token → Option Op} {e : Formula}
  {operand item inner exponent : Reader Formula} {fuel room : Nat} {lhs : Formula} {name : String}
  {close : Token} {s : List Token} {text : String}

def IsNamed (N : String → Prop) : Formula → Prop
  | symbol name | call name _ => N name
  | _ => True

def NamesAre (N : String → Prop) (s : List Token) : Prop :=
  ∀ name, .name name ∈ s → N name

theorem NamesAre.of_suffix {rest : List Token} (h : NamesAre N s) (hr : rest <:+ s) : NamesAre N rest :=
  fun name hn => h name (hr.subset hn)

-- The reader takes words off the front, and turns such with the right names into what has the property.
def Takes (N : String → Prop) (P : α → Prop) (read : Reader α) : Prop :=
  ∀ s, NamesAre N s → Yields (fun r => P r.1 ∧ r.2 <:+ s) (read s)

abbrev TakesNamed (N : String → Prop) (read : Reader Formula) : Prop :=
  Takes N (Every (IsNamed N)) read

theorem Takes.after {read : Reader α} {rest : List Token} (h : Takes N P read) (hs : NamesAre N s)
    (hr : rest <:+ s) : Yields (fun r => P r.1 ∧ r.2 <:+ s) (read rest) :=
  (h rest (hs.of_suffix hr)).mono fun _ ha => ⟨ha.1, ha.2.trans hr⟩

theorem takes_chain (h : TakesNamed N operand) (hl : lhs.Every (IsNamed N)) :
    TakesNamed N (chain op? operand fuel lhs) := by
  intro s hs
  induction fuel generalizing lhs s
  case zero => exact yields_ok ⟨hl, List.suffix_refl s⟩
  case succ fuel ih =>
    cases s
    case nil => exact yields_ok ⟨hl, List.suffix_refl _⟩
    case cons t rest =>
      simp only [chain]
      split
      case h_1 => exact yields_ok ⟨hl, List.suffix_refl _⟩
      case h_2 op _ =>
        refine (h.after hs (List.suffix_cons t rest)).bind fun ⟨rhs, rest'⟩ ⟨hr, hs'⟩ => ?_
        have hb : (binary op lhs rhs).Every (IsNamed N) := ⟨trivial, hl, hr⟩
        exact (ih hb _ (hs.of_suffix hs')).mono fun _ ha => ⟨ha.1, ha.2.trans hs'⟩

theorem takes_chained (h : TakesNamed N operand) : TakesNamed N (chained op? operand) := by
  intro s hs
  exact (h s hs).bind fun ⟨lhs, rest⟩ ⟨hl, hr⟩ => (takes_chain h hl).after hs hr

theorem takes_listItems (h : TakesNamed N item) :
    Takes N (EveryOf (IsNamed N)) (listItems close item fuel) := by
  intro s hs
  induction fuel generalizing s
  case zero => exact yields_error
  case succ fuel ih =>
    refine (h s hs).bind ?_
    rintro ⟨e, _ | ⟨t, rest'⟩⟩ ⟨he, hr⟩
    case nil => exact yields_error
    case cons =>
      have hr' : rest' <:+ s := (List.suffix_cons t rest').trans hr
      dsimp only
      split
      case isTrue =>
        refine (ih rest' (hs.of_suffix hr')).bind fun ⟨es, _⟩ ⟨hes, hs'⟩ => ?_
        exact yields_ok ⟨⟨he, hes⟩, hs'.trans hr'⟩
      case isFalse =>
        split
        case isTrue  => exact yields_ok ⟨⟨he, trivial⟩, hr'⟩
        case isFalse => exact yields_error

theorem takes_list (close : Token) (h : TakesNamed N item) :
    Takes N (EveryOf (IsNamed N)) (list close item) := by
  intro s hs
  unfold list
  split
  case isTrue  => exact yields_ok ⟨trivial, List.tail_suffix s⟩
  case isFalse => exact takes_listItems h _ hs

theorem takes_named (h : TakesNamed N inner) (hn : N name) : TakesNamed N (named inner name) := by
  intro s hs
  unfold named
  split
  case h_1 rest =>
    have ha := (takes_list .closeParen h).after hs (List.suffix_cons .openParen rest)
    exact ha.map fun ⟨es, _⟩ ⟨hes, hr⟩ => ⟨⟨hn, hes⟩, hr⟩
  case h_2 => exact yields_ok ⟨hn, List.suffix_refl s⟩

theorem takes_primary (h : TakesNamed N inner) : TakesNamed N (primary inner) := by
  intro s hs
  unfold primary
  split
  case h_1 => exact yields_error
  case h_2 => exact yields_ok ⟨trivial, List.suffix_cons ..⟩
  case h_3 => exact yields_ok ⟨trivial, List.suffix_cons ..⟩
  case h_4 rest =>
    refine (h.after hs (List.suffix_cons .openParen rest)).bind fun ⟨e, rest'⟩ ⟨he, hr⟩ => ?_
    dsimp only at hr ⊢
    split
    case h_1 => exact yields_error
    case h_2 => exact yields_ok ⟨he, (List.suffix_cons ..).trans hr⟩
    case h_3 => exact yields_error
  case h_5 rest =>
    have ha := (takes_list .closeBracket h).after hs (List.suffix_cons .openBracket rest)
    exact ha.map fun ⟨es, _⟩ ⟨hes, hr⟩ => ⟨⟨trivial, hes⟩, hr⟩
  case h_6 n rest =>
    have hr : rest <:+ .name n :: .dot :: rest := (List.suffix_cons ..).trans (List.suffix_cons ..)
    split
    case isTrue =>
      split
      case h_1 => exact yields_error
      case h_2 member rest =>
        have hm : N member := hs member (by simp)
        exact (takes_named h hm).after hs ((List.suffix_cons ..).trans hr)
      case h_3 => exact yields_error
    case isFalse => exact yields_ok ⟨hs n (by simp), List.suffix_cons ..⟩
  case h_7 n rest _ => exact (takes_named h (hs n (by simp))).after hs (List.suffix_cons ..)
  case h_8 => exact yields_error

theorem factorials_takes (he : e.Every (IsNamed N)) :
    (factorials e s).1.Every (IsNamed N) ∧ (factorials e s).2 <:+ s := by
  fun_induction factorials e s
  case case1 rest ih =>
    have ⟨hf, hr⟩ := ih ⟨trivial, he⟩
    exact ⟨hf, hr.trans (List.suffix_cons ..)⟩
  case case2 => exact ⟨he, List.suffix_refl _⟩

theorem takes_power (h : TakesNamed N inner) (h' : TakesNamed N exponent) :
    TakesNamed N (power inner exponent) := by
  intro s hs
  refine (takes_primary h s hs).bind fun ⟨e, rest⟩ ⟨he, hr⟩ => ?_
  have ⟨hb, hr'⟩ := factorials_takes (s := rest) he
  dsimp only at hr ⊢
  split
  case h_1 base rest' heq =>
    rw [heq] at hb hr'
    refine (h'.after hs ((List.suffix_cons ..).trans (hr'.trans hr))).bind fun ⟨x, _⟩ ⟨hx, hs'⟩ => ?_
    exact yields_ok ⟨⟨trivial, hb, hx⟩, hs'⟩
  case h_2 base rest' _ heq =>
    rw [heq] at hb hr'
    exact yields_ok ⟨hb, hr'.trans hr⟩

theorem takes_expression_and_signed :
    TakesNamed N (expression room) ∧ TakesNamed N (signed room) := by
  induction room
  case zero => exact ⟨fun _ _ => yields_error, fun _ _ => yields_error⟩
  case succ room ih =>
    refine ⟨takes_chained (takes_chained ih.2), fun s hs => ?_⟩
    unfold signed
    split
    case h_1 rest =>
      exact (ih.2.after hs (List.suffix_cons ..)).map fun _ ⟨he, hr⟩ => ⟨⟨trivial, he⟩, hr⟩
    case h_2 => exact ih.2.after hs (List.suffix_cons ..)
    case h_3 => exact takes_power ih.1 ih.2 s hs

theorem yields_named (h : Yields (NamesAre N) (Token.readAll text.toList)) :
    Yields (Every (IsNamed N)) (parse text) := by
  unfold parse
  refine h.bind fun s hs => (takes_expression_and_signed.1 s hs).bind ?_
  rintro ⟨e, _ | ⟨t, rest⟩⟩ ⟨he, _⟩
  case nil  => exact yields_ok he
  case cons => exact yields_error

-- What a text is parsed to has names that are read as such.
theorem named_of_parse (h : parse text = .ok e) : e.Every (IsNamed Token.IsName) :=
  yields_named (fun _ hs _ => Token.isName_of_readAll hs) e h

end Storyworld.Formula
