import Storyworld.Proofs.Formula.Grammar

/-!
The words of a formula read back: what comes out is the formula with the operands regrouped whose
parentheses have been left out, provided that there is room for its nesting.
-/

namespace Storyworld.Formula

variable {e a b : Formula} {es : List Formula} {ts rest : List Token} {n p room : Nat} {op : Op}
  {op? : Token → Option Op} {operand : Nat → Reader Formula} {wraps : Bool}

/-! ## Nesting -/

def operandNesting (wraps : Bool) (n : Nat) : Nat :=
  if wraps then n + 2 else n

mutual

-- How many levels of formulas and signs there are in the words, those of parentheses included.
def nesting : Formula → Nat
  | number _ | text _ | symbol _ => 1
  | neg e => operandNesting (e.precedence < 3) (nesting e) + 1
  | binary op a b =>
    let right := operandNesting (wrapsRight op b) (nesting b)
    max (operandNesting (wrapsLeft op a) (nesting a)) (if op = .pow then right + 1 else right)
  | factorial e => operandNesting (e.precedence < 6) (nesting e)
  | call _ es | matrix es => nestingOf es

def nestingOf : List Formula → Nat
  | [] => 1
  | e :: es => max (nesting e + 2) (nestingOf es)

end

theorem nesting_pos : 1 ≤ e.nesting := by
  induction e using Formula.rec (motive_2 := fun es => 1 ≤ nestingOf es) with
  | number | text | symbol | nil => exact Nat.le_refl 1
  | call _ _ ih | matrix _ ih    => exact ih
  | neg | factorial              => simp only [nesting, operandNesting]; split <;> omega
  | binary                       => simp only [nesting, operandNesting]; split <;> omega
  | cons                         => simp only [nestingOf]; omega

/-! ## Regrouped formulas -/

mutual

def regrouped : Formula → Formula
  | number x => number x
  | text s => text s
  | symbol name => symbol name
  | neg e => neg (regrouped e)
  | binary op a b =>
    if regroups op b then attach op (regrouped a) (regrouped b) else binary op (regrouped a) (regrouped b)
  | factorial e => factorial (regrouped e)
  | call name es => call name (regroupedOf es)
  | matrix es => matrix (regroupedOf es)

def regroupedOf : List Formula → List Formula
  | [] => []
  | e :: es => regrouped e :: regroupedOf es

end

-- How tightly the root holds its operands together; a negative number is one word all the same.
def bond : Formula → Nat
  | binary op _ _ => op.precedence
  | neg _ => 3
  | factorial _ => 5
  | _ => 6

theorem precedence_le_bond : e.precedence ≤ e.bond := by
  cases e <;> simp only [precedence, bond, Nat.le_refl] <;> split <;> omega

theorem rootLevel?_attach : (attach op a b).rootLevel? = some op.precedence := by
  cases b
  case binary =>
    rw [attach]
    split
    case isTrue h => simp [rootLevel?, rootOp?, h]
    case isFalse  => rfl
  all_goals rfl

theorem rootLevel?_regrouped : e.regrouped.rootLevel? = e.rootLevel? := by
  cases e
  case binary =>
    rw [regrouped]
    split
    · exact rootLevel?_attach
    · rfl
  all_goals rfl

theorem bond_of_rootLevel? (h : e.regrouped.rootLevel? = some p) : e.bond = p := by
  rw [rootLevel?_regrouped] at h
  cases e <;> cases h
  rfl

theorem precedence_of_rootLevel? (h : e.regrouped.rootLevel? = some p) : e.precedence = p := by
  rw [rootLevel?_regrouped] at h
  cases e <;> cases h
  rfl

/-! ## Levels -/

def factor (room : Nat) : Reader Formula :=
  chained productOp? (signed room)

theorem ReadsSigned.inProduct (h : ReadsSigned ts e n) : ReadsOperand 2 signed ts e n :=
  fun _ _ hr => h (hr.mono (by decide))

theorem ReadsSigned.product (h : ReadsSigned ts e n) (he : e.rootLevel? ≠ some 2) :
    ReadsRow 2 productOp? signed ts e n :=
  h.inProduct.row isLevel_product he

theorem ReadsRow.factor (h : ReadsRow 2 productOp? signed ts e n) :
    ReadsOperand 1 Formula.factor ts e n :=
  fun _ _ hr => h.all isLevel_product hr

theorem ReadsRow.expression (h : ReadsRow 1 sumOp? Formula.factor ts e n) : ReadsExpression ts e n := by
  intro room rest hr
  cases room
  case zero      => rw [within_zero (by omega), Formula.expression]
  case succ room => rw [within_succ]; exact h.all isLevel_sum hr

-- The words of the formula are read on the level of its root.
inductive Reads (e : Formula) : Prop where
  | primary (hb : e.bond = 6) (ho : Opens e.words) (h : ReadsPrimary e.words e.regrouped e.nesting)
  | base (hb : e.bond = 5) (ho : Opens e.words) (h : ReadsBase e.words e.regrouped e.nesting)
  | power (hb : e.bond = 4) (ho : Opens e.words) (h : ReadsPower e.words e.regrouped e.nesting)
  | signed (hb : e.bond = 3) (hs : Starts e.words) (h : ReadsSigned e.words e.regrouped e.nesting)
  | product (hb : e.bond = 2) (hs : Starts e.words)
    (h : ReadsRow 2 productOp? Formula.signed e.words e.regrouped e.nesting)
  | sum (hb : e.bond = 1) (hs : Starts e.words)
    (h : ReadsRow 1 sumOp? factor e.words e.regrouped e.nesting)

namespace Reads

theorem opens (h : Reads e) (hb : 4 ≤ e.bond) : Opens e.words := by
  cases h with
  | primary _ ho | base _ ho | power _ ho => exact ho
  | _ => omega

theorem starts (h : Reads e) : Starts e.words := by
  cases h with
  | primary _ ho | base _ ho | power _ ho       => exact ho.starts
  | signed _ hs | product _ hs | sum _ hs => exact hs

theorem toPrimary (h : Reads e) (hb : 6 ≤ e.bond) : ReadsPrimary e.words e.regrouped e.nesting := by
  cases h with
  | primary _ _ h => exact h
  | _ => omega

theorem toBase (h : Reads e) (hb : 5 ≤ e.bond) : ReadsBase e.words e.regrouped e.nesting := by
  by_cases hb' : 6 ≤ e.bond
  case pos => exact (h.toPrimary hb').base
  case neg =>
    cases h with
    | base _ _ h => exact h
    | _ => omega

theorem toSigned (h : Reads e) (hb : 3 ≤ e.bond) : ReadsSigned e.words e.regrouped e.nesting := by
  by_cases hb' : 5 ≤ e.bond
  case pos => exact (h.toBase hb').power.signed nesting_pos (h.opens (by omega))
  case neg =>
    cases h with
    | power _ ho h  => exact h.signed nesting_pos ho
    | signed _ _ h  => exact h
    | _ => omega

theorem toProduct (h : Reads e) (hb : 2 ≤ e.bond) :
    ReadsRow 2 productOp? Formula.signed e.words e.regrouped e.nesting := by
  by_cases hb' : 3 ≤ e.bond
  case pos => exact (h.toSigned hb').product fun he => by have := bond_of_rootLevel? he; omega
  case neg =>
    cases h with
    | product _ _ h => exact h
    | _ => omega

theorem toSum (h : Reads e) : ReadsRow 1 sumOp? factor e.words e.regrouped e.nesting := by
  by_cases hb' : 2 ≤ e.bond
  case pos =>
    exact ReadsOperand.row isLevel_sum (h.toProduct hb').factor fun he => by
      have := bond_of_rootLevel? he
      omega
  case neg =>
    cases h with
    | sum _ _ h => exact h
    | _ => omega

theorem toExpression (h : Reads e) : ReadsExpression e.words e.regrouped e.nesting :=
  h.toSum.expression

/-! ## Operands -/

theorem primary_operand (h : Reads e) (wraps : Bool) (hw : wraps = false → 6 ≤ e.precedence) :
    ReadsPrimary (wrapped wraps e.words) e.regrouped (operandNesting wraps e.nesting) := by
  cases wraps
  case true  => exact h.toExpression.wrapped
  case false => exact h.toPrimary ((hw rfl).trans precedence_le_bond)

theorem base_operand (h : Reads e) (wraps : Bool) (hw : wraps = false → 5 ≤ e.precedence) :
    ReadsBase (wrapped wraps e.words) e.regrouped (operandNesting wraps e.nesting) := by
  cases wraps
  case true  => exact (h.primary_operand true nofun).base
  case false => exact h.toBase ((hw rfl).trans precedence_le_bond)

theorem signed_operand (h : Reads e) (wraps : Bool) (hw : wraps = false → 3 ≤ e.precedence) :
    ReadsSigned (wrapped wraps e.words) e.regrouped (operandNesting wraps e.nesting) := by
  cases wraps
  case true  => exact (h.base_operand true nofun).power.signed (by simp [operandNesting]) ⟨_, _, rfl, rfl⟩
  case false => exact h.toSigned ((hw rfl).trans precedence_le_bond)

theorem starts_operand (h : Reads e) (wraps : Bool) : Starts (wrapped wraps e.words) := by
  cases wraps
  case true  => exact ⟨_, _, rfl, by decide⟩
  case false => exact h.starts

theorem opens_operand (h : Reads e) (wraps : Bool) (hw : wraps = false → 4 ≤ e.precedence) :
    Opens (wrapped wraps e.words) := by
  cases wraps
  case true  => exact ⟨_, _, rfl, rfl⟩
  case false => exact h.opens ((hw rfl).trans precedence_le_bond)

end Reads

/-! ## Parentheses left out -/

theorem precedence_of_wrapsLeft (h : wrapsLeft op a = false) :
    op.precedence ≤ a.precedence ∧ (op = .pow → 4 < a.precedence) := by
  unfold wrapsLeft at h
  split at h
  case isTrue hp =>
    subst hp
    have hb : 4 < a.precedence := Nat.lt_of_not_le (of_decide_eq_false h)
    exact ⟨hb.le, fun _ => hb⟩
  case isFalse hp => exact ⟨by simpa using h, fun h => absurd h hp⟩

theorem precedence_lt_of_wrapsLeft (h : wrapsLeft op a) (hp : op ≠ .pow) :
    a.precedence < op.precedence := by
  simpa [wrapsLeft, hp] using h

theorem precedence_of_wrapsRight (h : wrapsRight op b = false) (hr : regroups op b = false) :
    op.precedence ≤ b.precedence ∧ (op ≠ .pow → op.precedence < b.precedence) := by
  unfold wrapsRight at h
  split at h
  case isTrue hp  => exact ⟨by simpa using h, fun h => absurd hp h⟩
  case isFalse hp =>
    have hb : op.precedence < b.precedence := by simpa [hr] using h
    exact ⟨hb.le, fun _ => hb⟩

theorem regroups_eq_true (h : regroups op b) :
    op ≠ .pow ∧ b.rootLevel? = some op.precedence ∧ b.precedence = op.precedence := by
  cases b
  case binary op' _ _ => cases op <;> cases op' <;> first | exact ⟨by decide, rfl, rfl⟩ | cases h
  all_goals cases op <;> cases h

theorem wrapsRight_of_regroups (h : regroups op b) : wrapsRight op b = false := by
  have ⟨hp, _⟩ := regroups_eq_true h
  simp [wrapsRight, hp, h]

theorem precedence_pos : 1 ≤ e.precedence := by
  cases e
  case binary op _ _ => cases op <;> simp [precedence, Op.precedence]
  all_goals simp only [precedence]
  all_goals first | decide | (split <;> decide)

theorem wrapsLeft_of_sum (hp : op.precedence = 1) : wrapsLeft op a = false := by
  have hne : op ≠ .pow := by
    rintro rfl
    cases hp
  have := precedence_pos (e := a)
  simp only [wrapsLeft, if_neg hne, decide_eq_false_iff_not]
  omega

-- A row with one more operator: its left operand is a row, and its right one goes on in the row if the
-- parentheses around it have been left out for that.
theorem readsRow_binary {n n' : Nat} (hl : IsLevel p op?) (hp : op.precedence = p)
    (ha : ReadsRow p op? operand (wrapped (wrapsLeft op a) a.words) a.regrouped n)
    (hb : regroups op b = false → ReadsOperand p operand (wrapped (wrapsRight op b) b.words) b.regrouped n')
    (hr : regroups op b → ReadsRow p op? operand (wrapped (wrapsRight op b) b.words) b.regrouped n') :
    ReadsRow p op? operand (binary op a b).words (binary op a b).regrouped (max n n') := by
  rw [words, regrouped]
  cases h : regroups op b
  case true  => exact ha.regrouped (hr h) hp
  case false => exact ha.binary hl (hb h) hp

theorem regrouped_pow : (binary .pow a b).regrouped = binary .pow a.regrouped b.regrouped := by
  rw [regrouped, if_neg]
  exact fun h => (regroups_eq_true h).1 rfl

theorem nesting_binary (h : op ≠ .pow) : (binary op a b).nesting =
    max (operandNesting (wrapsLeft op a) a.nesting) (operandNesting (wrapsRight op b) b.nesting) := by
  rw [nesting, if_neg h]

namespace Reads

theorem sum_left (h : Reads a) (hp : op.precedence = 1) :
    ReadsRow 1 sumOp? factor (wrapped (wrapsLeft op a) a.words) a.regrouped
      (operandNesting (wrapsLeft op a) a.nesting) := by
  rw [wrapsLeft_of_sum hp]
  exact h.toSum

theorem product_left (h : Reads a) (hp : op.precedence = 2) :
    ReadsRow 2 productOp? Formula.signed (wrapped (wrapsLeft op a) a.words) a.regrouped
      (operandNesting (wrapsLeft op a) a.nesting) := by
  cases hw : wrapsLeft op a
  case false =>
    have := (precedence_of_wrapsLeft hw).1.trans precedence_le_bond
    exact h.toProduct (by omega)
  case true =>
    exact (h.signed_operand true nofun).product fun he => by
      have := precedence_of_rootLevel? he
      have := precedence_lt_of_wrapsLeft hw (by rintro rfl; cases hp)
      omega

theorem factor_operand (h : Reads e) (wraps : Bool) (hw : wraps = false → 2 ≤ e.precedence) :
    ReadsOperand 1 factor (wrapped wraps e.words) e.regrouped (operandNesting wraps e.nesting) := by
  cases wraps
  case true =>
    have ho := (h.signed_operand true nofun).inProduct
    exact fun _ _ hr => ho.all isLevel_product hr
  case false => exact (h.toProduct ((hw rfl).trans precedence_le_bond)).factor

theorem binary (ha : Reads a) (hb : Reads b) : Reads (binary op a b) := by
  have hl : wrapsLeft op a = false → _ := precedence_of_wrapsLeft
  have hr : wrapsRight op b = false → _ := precedence_of_wrapsRight
  have hs : Starts (Formula.binary op a b).words := (ha.starts_operand _).append
  obtain rfl | hp | hp : op = .pow ∨ op.precedence = 1 ∨ op.precedence = 2 := by cases op <;> decide
  · have ho := ha.opens_operand _ fun h => ((hl h).2 rfl).le
    have h := (ha.base_operand _ fun h => (hl h).2 rfl).pow
      (hb.signed_operand _ fun h => Nat.le_trans (by decide) (hr h (by cases b.rootOp? <;> rfl)).1)
    exact .power rfl ho.append (regrouped_pow ▸ h)
  · have hne : op ≠ .pow := by rintro rfl; cases hp
    refine .sum hp hs ?_
    rw [nesting_binary hne]
    refine readsRow_binary isLevel_sum hp (ha.sum_left hp) (fun h => ?_) fun h => ?_
    · exact hb.factor_operand _ fun hw => by
        have := (hr hw h).2 hne
        omega
    · rw [wrapsRight_of_regroups h]
      exact hb.toSum
  · have hne : op ≠ .pow := by rintro rfl; cases hp
    refine .product hp hs ?_
    rw [nesting_binary hne]
    refine readsRow_binary isLevel_product hp (ha.product_left hp) (fun h => ?_) fun h => ?_
    · exact (hb.signed_operand _ fun hw => by
        have := (hr hw h).2 hne
        omega).inProduct
    · rw [wrapsRight_of_regroups h]
      have := (regroups_eq_true h).2.2
      exact hb.toProduct (by have := precedence_le_bond (e := b); omega)

theorem items (h : ∀ e ∈ es, Reads e) (hne : es ≠ []) :
    ReadsItems (wordsOf es) (regroupedOf es) (nestingOf es) := by
  induction es
  case nil => exact absurd rfl hne
  case cons e es ih =>
    have ⟨he, hes⟩ := List.forall_mem_cons.mp h
    cases es
    case nil =>
      have hi := he.toExpression.item he.starts
      simpa [wordsOf, wordsOfMore, regroupedOf, nestingOf] using hi
    case cons e' es =>
      have hi := he.toExpression.items he.starts (ih hes (List.cons_ne_nil _ _))
      simpa [wordsOf, wordsOfMore, regroupedOf, nestingOf] using hi

theorem list_of (h : ∀ e ∈ es, Reads e) {close : Token} (hs : strength close = 0) (hc : close ≠ .comma) :
    list close (expression room) (wordsOf es ++ close :: rest) =
      within (nestingOf es) (room + 1) (.ok (regroupedOf es, rest)) := by
  cases es
  case nil  => exact list_close
  case cons => exact (items h (List.cons_ne_nil _ _)).list hs hc

end Reads

theorem reads : Reads e := by
  induction e using Formula.rec (motive_2 := fun es => ∀ e ∈ es, Reads e) with
  | number => exact .primary rfl ⟨_, _, rfl, rfl⟩ readsPrimary_number
  | text   => exact .primary rfl ⟨_, _, rfl, rfl⟩ readsPrimary_text
  | symbol => exact .primary rfl ⟨_, _, rfl, rfl⟩ readsPrimary_symbol
  | neg e ih =>
    have h := ih.signed_operand (e.precedence < 3) (by simp)
    exact .signed rfl ⟨_, _, rfl, by decide⟩ h.neg
  | factorial e ih =>
    have hw : decide (e.precedence < 6) = false → 6 ≤ e.precedence := by simp
    have ho := ih.opens_operand (e.precedence < 6) (by simp; omega)
    exact .base rfl ho.append (ih.primary_operand _ hw).factorial
  | binary _ _ _ iha ihb => exact iha.binary ihb
  | call _ _ ih =>
    exact .primary rfl ⟨_, _, rfl, rfl⟩ (readsPrimary_call (Reads.list_of ih rfl nofun))
  | matrix _ ih =>
    exact .primary rfl ⟨_, _, rfl, rfl⟩ (readsPrimary_matrix (Reads.list_of ih rfl nofun))
  | nil =>
    rename_i h
    cases h
  | cons _ _ ih ihs =>
    rename_i h
    obtain rfl | h := List.mem_cons.mp h
    · exact ih
    · exact ihs _ h

-- The words on their own: with room for one level more than they nest, the regrouped formula.
theorem expression_words : expression room e.words = within (e.nesting + 1) room (.ok (e.regrouped, [])) := by
  rw [← List.append_nil e.words]
  exact reads.toExpression below_nil

theorem parse_of_readAll {source : String} {s : List Token}
    (h : Token.readAll source.toList = .ok s) :
    parse source = expression maxNesting s >>= fun r =>
      match r with
      | (e, []) => return e
      | (_, t :: _) => throw (.unexpectedToken t) := by
  rw [parse, h]
  rfl

end Storyworld.Formula
