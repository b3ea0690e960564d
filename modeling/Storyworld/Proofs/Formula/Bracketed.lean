import Storyworld.Proofs.Formula.Reading
import Storyworld.Proofs.Yields

/-!
Formulas written out with parentheses around every operation. Such a text is parsed to the very formula
that it shows, if that nests no deeper than there is room for.
-/

namespace Storyworld.Formula

/-! ## Texts -/

mutual

-- The text shows the formula. A number may stand there as any literal that is read as it, and elsewhere
-- as another one.
inductive Bracketed : Formula → List Char → Prop
  | number {x : Float} {s : List Char} (h : Token.readAll s = .ok [.number x]) : Bracketed (number x) s
  | text (t : String) : Bracketed (text t) ('"' :: (t.toList.flatMap Text.escaped ++ ['"']))
  | symbol {name : String} (h : Token.IsName name) : Bracketed (symbol name) name.toList
  | neg {e : Formula} {s : List Char} (h : Bracketed e s) : Bracketed (neg e) ('(' :: ('-' :: s ++ [')']))
  | binary {a b : Formula} {s s' : List Char} (op : Op) (ha : Bracketed a s) (hb : Bracketed b s') :
    Bracketed (binary op a b) ('(' :: (s ++ ' ' :: op.symbol :: ' ' :: s' ++ [')']))
  | factorial {e : Formula} {s : List Char} (h : Bracketed e s) :
    Bracketed (factorial e) ('(' :: (s ++ ['!'] ++ [')']))
  | call {name : String} {es : List Formula} {s : List Char} (hn : Token.IsName name) (h : BracketedAll es s) :
    Bracketed (call name es) (name.toList ++ '(' :: (s ++ [')']))
  | matrix {es : List Formula} {s : List Char} (h : BracketedAll es s) :
    Bracketed (matrix es) ('[' :: (s ++ [']']))

-- With a comma and a blank between.
inductive BracketedAll : List Formula → List Char → Prop
  | nil : BracketedAll [] []
  | one {e : Formula} {s : List Char} (h : Bracketed e s) : BracketedAll [e] s
  | cons {e e' : Formula} {es : List Formula} {s s' : List Char} (h : Bracketed e s)
    (hs : BracketedAll (e' :: es) s') : BracketedAll (e :: e' :: es) (s ++ ',' :: ' ' :: s')

end

/-! ## Levels -/

mutual

-- How many levels of formulas and signs there are in such a text.
def levels : Formula → Nat
  | number _ | text _ | symbol _ => 1
  | neg e => levels e + 3
  | binary op a b => max (levels a) (if op = .pow then levels b + 1 else levels b) + 2
  | factorial e => levels e + 2
  | call _ es | matrix es => levelsOf es

def levelsOf : List Formula → Nat
  | [] => 1
  | e :: es => max (levels e + 2) (levelsOf es)

end

variable {e a b : Formula} {es : List Formula} {op : Op} {s s' behind : List Char} {ts ts' rest : List Token}
  {n n' p : Nat} {name : String} {x : Float} {op? : Token → Option Op} {operand : Nat → Reader Formula}
  {room : Nat}

-- A sign takes the most of them, three.
theorem levels_le : e.levels + 2 ≤ 3 * e.height := by
  induction e using Formula.rec (motive_2 := fun es => levelsOf es + 2 ≤ 3 * heightOfAll es + 3) with
  | number | text | symbol    => simp [levels, height]
  | neg | factorial           => simp only [levels, height]; omega
  | binary                    => simp only [levels, height]; split <;> omega
  | call _ _ ih | matrix _ ih => simp only [levels, height]; omega
  | nil                       => simp [levelsOf, heightOfAll]
  | cons                      => simp only [levelsOf, heightOfAll]; omega

/-! ## Operations in parentheses -/

theorem ReadsSigned.factor (h : ReadsSigned ts e n) : ReadsOperand 1 Formula.factor ts e n :=
  fun _ _ hr => h.inProduct.all isLevel_product hr

theorem readsExpression_of_sum (h : ∀ {room rest}, Below 1 rest →
    chained sumOp? (Formula.factor room) (ts ++ rest) = within n room (.ok (e, rest))) :
    ReadsExpression ts e n := by
  intro room rest hr
  cases room
  case zero      => rw [within_zero (by omega), Formula.expression]
  case succ room => rw [within_succ]; exact h hr

theorem ReadsOperand.expression (h : ReadsOperand 1 Formula.factor ts e n) : ReadsExpression ts e n :=
  readsExpression_of_sum (h.all isLevel_sum)

theorem ReadsOperand.binary (hl : IsLevel p op?) (h : ReadsOperand p operand ts a n)
    (h' : ReadsOperand p operand ts' b n') (hp : op.precedence = p) (hr : Below p rest) :
    chained op? (operand room) (ts ++ .op op.symbol :: ts' ++ rest) =
      within (max n n') room (.ok (binary op a b, rest)) := by
  rw [List.append_assoc, chained, h (by simp [hp]), within_bind, List.cons_append]
  dsimp only [Except.bind, bind]
  rw [List.length_cons, chain_cons (hl.symbol op hp), h' (hr.mono (Nat.le_succ p)), within_bind]
  rw [← within_within]
  exact congrArg (fun r => within n room (within n' room r)) (chain_of_stops hl hr)

-- The words of a formula in parentheses are read as it, and so is the formula in them on its own.
structure IsRead (s : List Char) (ts : List Token) (e : Formula) (n : Nat) : Prop where
  fronts : ∀ {behind}, Token.Ends behind → Token.Fronts s behind ts
  opens : Opens ts
  reads : ReadsPrimary ts e n
  pos : 1 ≤ n

namespace IsRead

theorem signed (h : IsRead s ts e n) : ReadsSigned ts e n :=
  h.reads.base.power.signed h.pos h.opens

theorem expression (h : IsRead s ts e n) : ReadsExpression ts e n :=
  h.signed.factor.expression

theorem fronts_wrapped (h : ∀ {behind}, Token.Ends behind → Token.Fronts s behind ts)
    (_ : Token.Ends behind) : Token.Fronts ('(' :: (s ++ [')'])) behind (wrapped true ts) := by
  have hc : Token.Fronts [')'] behind [.closeParen] := Token.fronts_mark (by decide)
  exact (Token.fronts_mark (by decide)).append ((h (by simp)).append hc)

theorem wrapped (h : ∀ {behind}, Token.Ends behind → Token.Fronts s behind ts)
    (he : ReadsExpression ts e n) : IsRead ('(' :: (s ++ [')'])) (Formula.wrapped true ts) e (n + 2) where
  fronts := fronts_wrapped h
  opens := ⟨_, _, rfl, rfl⟩
  reads := he.wrapped
  pos := by omega

theorem neg (h : IsRead s ts e n) :
    IsRead ('(' :: ('-' :: s ++ [')'])) (Formula.wrapped true (.op '-' :: ts)) e.neg (n + 3) := by
  refine wrapped (fun hb => (Token.fronts_mark (by decide)).append (h.fronts hb)) ?_
  exact h.signed.neg.factor.expression

theorem factorial (h : IsRead s ts e n) :
    IsRead ('(' :: (s ++ ['!'] ++ [')'])) (Formula.wrapped true (ts ++ [.op '!'])) e.factorial (n + 2) := by
  refine wrapped (fun hb => (h.fronts (by simp)).append (Token.fronts_mark (by decide))) ?_
  exact (h.reads.factorial.power.signed h.pos h.opens.append).factor.expression

theorem binary (h : IsRead s ts a n) (h' : IsRead s' ts' b n') (op : Op) :
    IsRead ('(' :: (s ++ ' ' :: op.symbol :: ' ' :: s' ++ [')']))
      (Formula.wrapped true (ts ++ .op op.symbol :: ts')) (binary op a b)
      (max n (if op = .pow then n' + 1 else n') + 2) := by
  refine wrapped (fun hb => (h.fronts (by simp)).append (fronts_between (h'.fronts hb))) ?_
  obtain rfl | hp | hp : op = .pow ∨ op.precedence = 1 ∨ op.precedence = 2 := by cases op <;> decide
  · have hs := (h.reads.base.pow h'.signed).signed (by have := h.pos; omega) h.opens.append
    rw [if_pos rfl]
    exact hs.factor.expression
  · rw [if_neg (by rintro rfl; cases hp)]
    exact readsExpression_of_sum (h.signed.factor.binary isLevel_sum h'.signed.factor hp)
  · have ho : ReadsOperand 1 Formula.factor (ts ++ .op op.symbol :: ts') (Formula.binary op a b) (max n n') :=
      fun _ _ hr => h.signed.inProduct.binary isLevel_product h'.signed.inProduct hp hr
    rw [if_neg (by rintro rfl; cases hp)]
    exact ho.expression

end IsRead

/-! ## Lists -/

-- The words are formulas with commas between them, or there are none.
structure AreRead (s : List Char) (ts : List Token) (es : List Formula) (n : Nat) : Prop where
  fronts : ∀ {behind}, Token.Ends behind → Token.Fronts s behind ts
  list : ∀ {close room rest}, strength close = 0 → close ≠ .comma →
    list close (expression room) (ts ++ close :: rest) = within n (room + 1) (.ok (es, rest))
  pos : 1 ≤ n

namespace AreRead

theorem nil : AreRead [] [] [] 1 where
  fronts _ := Token.fronts_nil
  list _ _ := list_close
  pos := Nat.le_refl 1

theorem of_items (hf : ∀ {behind}, Token.Ends behind → Token.Fronts s behind ts) (h : ReadsItems ts es n)
    (hn : 1 ≤ n) : AreRead s ts es n where
  fronts := hf
  list hs hc := h.list hs hc
  pos := hn

theorem call (h : AreRead s ts es n) (hn : Token.IsName name) :
    IsRead (name.toList ++ '(' :: (s ++ [')'])) (.name name :: .openParen :: (ts ++ [.closeParen]))
      (call name es) n where
  fronts {behind} hb := by
    have hc : Token.Fronts [')'] behind [.closeParen] := Token.fronts_mark (by decide)
    have hn : Token.Fronts name.toList (['('] ++ (s ++ [')']) ++ behind) [.name name] :=
      hn.fronts fun c hc => by
        obtain rfl : '(' = c := by simpa using hc
        decide
    exact hn.append ((Token.fronts_mark (by decide)).append ((h.fronts (by simp)).append hc))
  opens := ⟨_, _, rfl, rfl⟩
  reads := readsPrimary_call (h.list rfl (by simp))
  pos := h.pos

theorem matrix (h : AreRead s ts es n) :
    IsRead ('[' :: (s ++ [']'])) (.openBracket :: (ts ++ [.closeBracket])) (matrix es) n where
  fronts {behind} hb := by
    have hc : Token.Fronts [']'] behind [.closeBracket] := Token.fronts_mark (by decide)
    exact (Token.fronts_mark (by decide)).append ((h.fronts (by simp)).append hc)
  opens := ⟨_, _, rfl, rfl⟩
  reads := readsPrimary_matrix (h.list rfl (by simp))
  pos := h.pos

end AreRead

/-! ## Formulas -/

theorem exists_isRead (h : Bracketed e s) : ∃ ts, IsRead s ts e e.levels := by
  induction h using Bracketed.rec (motive_2 := fun es s _ =>
    ∃ ts, AreRead s ts es (levelsOf es) ∧ (es ≠ [] → ReadsItems ts es (levelsOf es))) with
  | number h =>
    exact ⟨_, fun hb => Token.fronts_of_readAll hb h (.inr rfl), ⟨_, _, rfl, rfl⟩, readsPrimary_number, le_rfl⟩
  | text t => exact ⟨_, fun _ => Token.fronts_quoted, ⟨_, _, rfl, rfl⟩, readsPrimary_text, le_rfl⟩
  | symbol h =>
    exact ⟨_, fun hb => h.fronts (hb.head (by decide)), ⟨_, _, rfl, rfl⟩, readsPrimary_symbol, le_rfl⟩
  | neg _ ih =>
    obtain ⟨ts, h⟩ := ih
    exact ⟨_, h.neg⟩
  | binary op _ _ iha ihb =>
    obtain ⟨ts, h⟩ := iha
    obtain ⟨ts', h'⟩ := ihb
    exact ⟨_, h.binary h' op⟩
  | factorial _ ih =>
    obtain ⟨ts, h⟩ := ih
    exact ⟨_, h.factorial⟩
  | call hn _ ih =>
    obtain ⟨ts, h, _⟩ := ih
    exact ⟨_, h.call hn⟩
  | matrix _ ih =>
    obtain ⟨ts, h, _⟩ := ih
    exact ⟨_, h.matrix⟩
  | nil => exact ⟨_, .nil, fun h => absurd rfl h⟩
  | @one e s _ ih =>
    obtain ⟨ts, h⟩ := ih
    have hl : levelsOf [e] = e.levels + 2 := Nat.max_eq_left (Nat.succ_le_succ (Nat.zero_le _))
    rw [hl]
    have hi := h.expression.item h.opens.starts
    exact ⟨_, .of_items h.fronts hi (by omega), fun _ => hi⟩
  | cons _ _ ih ihs =>
    obtain ⟨ts, h⟩ := ih
    obtain ⟨ts', h', hi⟩ := ihs
    have hi := h.expression.items h.opens.starts (hi (List.cons_ne_nil _ _))
    refine ⟨_, .of_items (fun hb => ?_) hi (by have := h.pos; simp only [levelsOf]; omega), fun _ => hi⟩
    exact (h.fronts (by simp)).append
      ((Token.fronts_mark (by decide)).append (Token.fronts_blank.append (h'.fronts hb)))

-- 43 levels of nodes are the most for which there is always room: 42 signs in front of a name take up
-- all of it.
theorem parse_bracketed (h : Bracketed e s) (hh : e.height ≤ 43) : parse (.ofList s) = .ok e := by
  obtain ⟨ts, hr⟩ := exists_isRead h
  have hs : Token.readAll (String.ofList s).toList = .ok ts := by
    rw [String.toList_ofList]
    exact Token.Fronts.readAll (hr.fronts Token.ends_nil)
  have hn : e.levels + 1 ≤ maxNesting := by
    have := levels_le (e := e)
    simp only [maxNesting]
    omega
  have he : expression maxNesting (ts ++ []) = _ := hr.expression below_nil
  rw [List.append_nil, within, if_pos hn] at he
  rw [parse_of_readAll hs, he]
  rfl

-- A gust against the wind: the two literals are the same number, and the name of the storm is quoted.
def gust : Formula :=
  binary .pow (neg (symbol "wind"))
    (call "max" [number 0.5, factorial (number 0.5), text "a \"gale\"", matrix []])

def gustText : List Char :=
  "((-wind) ^ max(.5, (5e-1!), \"a \\\"gale\\\"\", []))".toList

theorem bracketed_gust : Bracketed gust gustText := by
  have hw : Bracketed (symbol "wind") "wind".toList := .symbol ⟨'w', ['i', 'n', 'd'], by decide⟩
  have hm : Token.IsName "max" := ⟨'m', ['a', 'x'], by decide⟩
  have hp : Bracketed (number 0.5) ".5".toList := .number (ok_of_toOption (by decide +kernel))
  have he : Bracketed (number 0.5) "5e-1".toList := .number (ok_of_toOption (by decide +kernel))
  exact .binary .pow hw.neg (.call hm (.cons hp (.cons he.factorial (.cons (.text _) (.one (.matrix .nil))))))

theorem gust_parsed : Bracketed gust gustText ∧ gust.height ≤ 43 ∧ parse (.ofList gustText) = .ok gust :=
  ⟨bracketed_gust, by decide, parse_bracketed bracketed_gust (by decide)⟩

end Storyworld.Formula
