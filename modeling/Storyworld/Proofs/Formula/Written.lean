import Storyworld.Proofs.Decimal.Numeral
import Storyworld.Proofs.Formula.Words

/-!
What `write` puts on paper, word by word.
-/

namespace Storyworld

namespace Formula

mutual

-- The node and all nodes below it have the property.
def Every (p : Formula → Prop) : Formula → Prop
  | number x => p (number x)
  | text s => p (text s)
  | symbol name => p (symbol name)
  | neg e => p (neg e) ∧ Every p e
  | binary op a b => p (binary op a b) ∧ Every p a ∧ Every p b
  | factorial e => p (factorial e) ∧ Every p e
  | call name es => p (call name es) ∧ EveryOf p es
  | matrix es => p (matrix es) ∧ EveryOf p es

def EveryOf (p : Formula → Prop) : List Formula → Prop
  | [] => True
  | e :: es => Every p e ∧ EveryOf p es

end

variable {p q r : Formula → Prop} {e a b : Formula} {es : List Formula} {rest : List Char} {x : Float}
  {op : Op}

theorem Every.imp (h : ∀ e, p e → q e → r e) (hp : e.Every p) (hq : e.Every q) : e.Every r := by
  induction e using Formula.rec (motive_2 := fun es => EveryOf p es → EveryOf q es → EveryOf r es) with
  | number | text | symbol      => exact h _ hp hq
  | neg _ ih | factorial _ ih   => exact ⟨h _ hp.1 hq.1, ih hp.2 hq.2⟩
  | binary _ _ _ iha ihb        => exact ⟨h _ hp.1 hq.1, iha hp.2.1 hq.2.1, ihb hp.2.2 hq.2.2⟩
  | call _ _ ih | matrix _ ih   => exact ⟨h _ hp.1 hq.1, ih hp.2 hq.2⟩
  | nil                         => trivial
  | cons _ _ ih ihs             =>
    rename_i hp hq
    exact ⟨ih hp.1 hq.1, ihs hp.2 hq.2⟩

def wrapped (wraps : Bool) (tokens : List Token) : List Token :=
  if wraps then .openParen :: (tokens ++ [.closeParen]) else tokens

mutual

def words : Formula → List Token
  | number x => [.number x]
  | text s => [.text s]
  | symbol name => [.name name]
  | neg e => .op '-' :: wrapped (e.precedence < 3) (words e)
  | binary op a b =>
    wrapped (wrapsLeft op a) (words a) ++ .op op.symbol :: wrapped (wrapsRight op b) (words b)
  | factorial e => wrapped (e.precedence < 6) (words e) ++ [.op '!']
  | call name args => .name name :: .openParen :: (wordsOf args ++ [.closeParen])
  | matrix items => .openBracket :: (wordsOf items ++ [.closeBracket])

def wordsOf : List Formula → List Token
  | [] => []
  | e :: es => words e ++ wordsOfMore es

def wordsOfMore : List Formula → List Token
  | [] => []
  | e :: es => .comma :: (words e ++ wordsOfMore es)

end

-- A leaf that is read back as what it is.
def IsReadable : Formula → Prop
  | number x => Token.readAll (Decimal.showSettled x).toList = .ok [.number x]
  | text _ => False
  | symbol name | call name _ => Token.IsName name
  | _ => True

open Token

theorem fronts_operand (wraps : Bool) (h : ∀ rest, Ends rest → Fronts e.write rest e.words)
    (hr : Ends rest) : Fronts (operand wraps e.write) rest (wrapped wraps e.words) := by
  cases wraps
  case false => exact h rest hr
  case true =>
    have hc : Fronts [')'] rest [closeParen] := fronts_mark (by decide)
    exact (fronts_mark (by decide)).append ((h _ (by simp)).append hc)

theorem fronts_between {s : List Char} {tokens : List Token} (h : Fronts s rest tokens) :
    Fronts (' ' :: op.symbol :: ' ' :: s) rest (.op op.symbol :: tokens) :=
  fronts_blank.append <| fronts_operator.append <| fronts_blank.append h

-- What is shown as a word might be a name.
theorem signed_or_name_or_numeral : (∃ r, (Decimal.showSettled x).toList = '-' :: r) ∨
    IsName (Decimal.showSettled x) ∨ Decimal.IsNumeral (Decimal.showSettled x).toList := by
  obtain hs | hs | hs | hs := Decimal.shown_settled (x := x)
  · exact .inl hs
  · exact .inr <| .inl ⟨'N', ['a', 'N'], hs, by decide⟩
  · exact .inr <| .inl ⟨'i', ['n', 'f'], hs, by decide⟩
  · exact .inr <| .inr hs

theorem fronts_write (h : e.Every IsReadable) (hr : Ends rest) : Fronts e.write rest e.words := by
  induction e using Formula.rec (motive_2 := fun es => EveryOf IsReadable es → ∀ {rest}, Ends rest →
    Fronts (writeAll es) rest (wordsOf es) ∧ Fronts (writeMore es) rest (wordsOfMore es))
    generalizing rest with
  | number x => exact fronts_of_readAll hr h (.inr rfl)
  | text     => exact h.elim
  | symbol   => exact IsName.fronts h (hr.head (by decide))
  | neg _ ih =>
    exact (fronts_mark (by decide)).append (fronts_operand _ (fun _ => ih h.2) hr)
  | binary op a b iha ihb =>
    have he : Ends (' ' :: op.symbol :: ' ' :: (operand (wrapsRight op b) b.write ++ rest)) := by simp
    have ha := fronts_operand (wrapsLeft op a) (fun _ => iha h.2.1) he
    exact ha.append (fronts_between (fronts_operand _ (fun _ => ihb h.2.2) hr))
  | factorial _ ih =>
    exact (fronts_operand _ (fun _ => ih h.2) (by simp)).append (fronts_mark (by decide))
  | call name args ih =>
    have hc : Fronts [')'] rest [closeParen] := fronts_mark (by decide)
    have he : Ends ([')'] ++ rest) := by simp
    have ha := (ih h.2 he).1
    have hn : Fronts name.toList (['('] ++ (writeAll args ++ [')']) ++ rest) [.name name] :=
      IsName.fronts h.1 fun c hc => by
        obtain rfl : '(' = c := by simpa using hc
        decide
    exact hn.append ((fronts_mark (by decide)).append (ha.append hc))
  | matrix _ ih =>
    have hc : Fronts [']'] rest [closeBracket] := fronts_mark (by decide)
    have he : Ends ([']'] ++ rest) := by simp
    have ha := (ih h.2 he).1
    exact (fronts_mark (by decide)).append (ha.append hc)
  | nil => exact ⟨fronts_nil, fronts_nil⟩
  | cons e es ih ihs =>
    rename_i h rest hr
    have hm := (ihs h.2 hr).2
    have he : Ends (writeMore es ++ rest) := by
      cases es <;> simp [writeMore, hr]
    have h := (ih h.1 he).append hm
    exact ⟨h, (fronts_mark (by decide)).append (fronts_blank.append h)⟩

end Formula

end Storyworld
