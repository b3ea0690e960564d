import Storyworld.Proofs.Formula.Written

/-!
The grammar of formulas as rules: how words that stand in a row are read, level by level, if those
behind them bind more loosely. A reader gives up exactly if there is not room enough.
-/

namespace Storyworld.Formula

variable {α β : Type} {n n' m room fuel : Nat} {e a b lhs : Formula} {ts ts' rest : List Token}
  {t : Token} {op op' : Op} {p : Nat} {op? : Token → Option Op} {operand : Nat → Reader Formula}

/-! ## Room -/

-- The outcome if there is room, and the complaint about nesting otherwise.
def within (need room : Nat) (r : Except FormulaError α) : Except FormulaError α :=
  if need ≤ room then r else .error .tooDeep

variable {r : Except FormulaError α}

theorem within_bind {f : α → Except FormulaError β} : within n m r >>= f = within n m (r >>= f) := by
  unfold within
  split <;> rfl

theorem within_map {f : α → β} : (within n m r).map f = within n m (r.map f) := by
  unfold within
  split <;> rfl

theorem within_within : within n m (within n' m r) = within (max n n') m r := by
  by_cases h : n ≤ m <;> by_cases h' : n' ≤ m <;>
    simp only [within, Nat.max_le, h, h', if_true, if_false, and_true, and_false]

theorem within_succ : within (n + 1) (m + 1) r = within n m r := by
  simp [within]

theorem within_zero (h : 1 ≤ n) : within n 0 r = .error .tooDeep := by
  simp [within, Nat.not_le_of_lt h]

/-! ## Regrouping -/

-- `a op e`, where `e` has been written without parentheses: the operator takes the first operand in a
-- row of such of its precedence.
def attach (op : Op) (a : Formula) : Formula → Formula
  | binary op' l r =>
    if op'.precedence = op.precedence then binary op' (attach op a l) r else binary op a (binary op' l r)
  | e => binary op a e

-- The precedence of the operator of the root.
def rootLevel? (e : Formula) : Option Nat :=
  e.rootOp?.map Op.precedence

theorem attach_of_rootLevel_ne (h : e.rootLevel? ≠ some op.precedence) : attach op a e = binary op a e := by
  cases e
  case binary => exact if_neg fun he => h (congrArg some he)
  all_goals rfl

theorem attach_binary (h : op'.precedence = op.precedence) :
    attach op lhs (binary op' a b) = binary op' (attach op lhs a) b :=
  if_pos h

theorem attach_attach (h : op'.precedence = op.precedence) :
    attach op lhs (attach op' a b) = attach op' (attach op lhs a) b := by
  induction b using Formula.rec (motive_2 := fun _ => True) with
  | binary op'' l r ihl _ =>
    by_cases hp : op''.precedence = op'.precedence
    case pos => simp only [attach_binary hp, attach_binary (hp.trans h), ihl]
    case neg => simp only [attach, if_neg hp, if_pos h]
  | nil | cons => trivial
  | _ => simp only [attach, if_pos h]

/-! ## Words behind -/

-- How tightly a word binds what stands before it; what cannot stand behind a formula comes last.
def strength : Token → Nat
  | .closeParen | .closeBracket | .comma => 0
  | .op '+' | .op '-' => 1
  | .op '*' | .op '/' | .op '%' => 2
  | .op '^' => 4
  | .op _ => 5
  | _ => 7

-- The first of the words binds more loosely.
def Below (p : Nat) (s : List Token) : Prop :=
  ∀ t ∈ s.head?, strength t < p

@[simp] theorem below_nil : Below p [] := by
  simp [Below]

@[simp] theorem below_cons : Below p (t :: rest) ↔ strength t < p := by
  simp [Below]

theorem Below.mono {q : Nat} (h : Below p rest) (hpq : p ≤ q) : Below q rest :=
  fun t ht => Nat.lt_of_lt_of_le (h t ht) hpq

@[simp] theorem strength_symbol : strength (.op op.symbol) = op.precedence := by
  cases op <;> rfl

/-! ## Levels -/

def ReadsPrimary (ts : List Token) (e : Formula) (n : Nat) : Prop :=
  ∀ ⦃room rest⦄, Below 6 rest →
    primary (expression room) (ts ++ rest) = within n (room + 1) (.ok (e, rest))

def ReadsBase (ts : List Token) (e : Formula) (n : Nat) : Prop :=
  ∀ ⦃room rest⦄, Below 5 rest →
    (primary (expression room) (ts ++ rest)).map (fun r => factorials r.1 r.2) =
      within n (room + 1) (.ok (e, rest))

def ReadsPower (ts : List Token) (e : Formula) (n : Nat) : Prop :=
  ∀ ⦃room rest⦄, Below 4 rest →
    power (expression room) (signed room) (ts ++ rest) = within n (room + 1) (.ok (e, rest))

def ReadsSigned (ts : List Token) (e : Formula) (n : Nat) : Prop :=
  ∀ ⦃room rest⦄, Below 4 rest → signed room (ts ++ rest) = within n room (.ok (e, rest))

def ReadsExpression (ts : List Token) (e : Formula) (n : Nat) : Prop :=
  ∀ ⦃room rest⦄, Below 1 rest → expression room (ts ++ rest) = within (n + 1) room (.ok (e, rest))

-- The words start with one that takes no operand on its left, nor is it a sign.
def Opens (ts : List Token) : Prop :=
  ∃ t s, ts = t :: s ∧ strength t = 7

theorem Opens.append (h : Opens ts) : Opens (ts ++ ts') := by
  obtain ⟨t, s, rfl, ht⟩ := h
  exact ⟨t, s ++ ts', rfl, ht⟩

-- The words start with one that does not end anything.
def Starts (ts : List Token) : Prop :=
  ∃ t s, ts = t :: s ∧ strength t ≠ 0

theorem Opens.starts (h : Opens ts) : Starts ts := by
  obtain ⟨t, s, rfl, ht⟩ := h
  exact ⟨t, s, rfl, by omega⟩

theorem Starts.append (h : Starts ts) : Starts (ts ++ ts') := by
  obtain ⟨t, s, rfl, ht⟩ := h
  exact ⟨t, s ++ ts', rfl, ht⟩

theorem factorials_of_below (h : Below 5 rest) : factorials e rest = (e, rest) := by
  unfold factorials
  split
  case h_1 => exact absurd (below_cons.mp h) (by decide)
  case h_2 => rfl

theorem ReadsPrimary.base (h : ReadsPrimary ts e n) : ReadsBase ts e n := by
  intro room rest hr
  rw [h (hr.mono (by decide)), within_map]
  exact congrArg (fun r => within n (room + 1) (.ok r)) (factorials_of_below hr)

theorem ReadsPrimary.factorial (h : ReadsPrimary ts e n) : ReadsBase (ts ++ [.op '!']) e.factorial n := by
  intro room rest hr
  rw [List.append_assoc, h (by simp [strength]), within_map]
  exact congrArg (fun r => within n (room + 1) (.ok r)) (factorials_of_below hr)

theorem power_eq {inner exponent : Reader Formula} {s : List Token} :
    power inner exponent s = ((primary inner s).map fun r => factorials r.1 r.2) >>= fun r =>
      match r with
      | (base, .op '^' :: rest) => do
        let (e, rest) ← exponent rest
        return (binary .pow base e, rest)
      | (base, rest) => return (base, rest) := by
  unfold power
  cases primary inner s <;> rfl

theorem ReadsBase.power (h : ReadsBase ts e n) : ReadsPower ts e n := by
  intro room rest hr
  rw [power_eq, h (hr.mono (by decide)), within_bind]
  dsimp only [Except.bind, bind]
  split
  case h_1 base _ heq =>
    cases heq
    exact absurd (below_cons.mp hr) (by decide)
  case h_2 heq =>
    cases heq
    rfl

theorem ReadsBase.pow (h : ReadsBase ts a n) (h' : ReadsSigned ts' b n') :
    ReadsPower (ts ++ .op '^' :: ts') (binary .pow a b) (max n (n' + 1)) := by
  intro room rest hr
  rw [List.append_assoc, power_eq, h (by simp [strength]), within_bind, ← within_within, within_succ]
  refine congrArg (within n (room + 1)) ?_
  change (signed room (ts' ++ rest) >>= fun r => _) = _
  rw [h' hr, within_bind]
  rfl

theorem ReadsPower.signed (h : ReadsPower ts e n) (hn : 1 ≤ n) (ho : Opens ts) : ReadsSigned ts e n := by
  intro room rest hr
  cases room
  case zero => rw [within_zero hn, Formula.signed]
  case succ room =>
    obtain ⟨t, s, rfl, ht⟩ := ho
    rw [← h hr, List.cons_append, Formula.signed]
    · rintro _ ⟨⟩
      exact absurd ht (by decide)
    · rintro _ ⟨⟩
      exact absurd ht (by decide)

theorem ReadsSigned.neg (h : ReadsSigned ts e n) : ReadsSigned (.op '-' :: ts) e.neg (n + 1) := by
  intro room rest hr
  cases room
  case zero => rw [within_zero (by omega), Formula.signed]
  case succ room =>
    rw [List.cons_append, Formula.signed, h hr, within_map, within_succ]
    rfl

theorem ReadsExpression.wrapped (h : ReadsExpression ts e n) :
    ReadsPrimary (Formula.wrapped true ts) e (n + 2) := by
  intro room rest _
  have hw : Formula.wrapped true ts ++ rest = .openParen :: (ts ++ .closeParen :: rest) := by
    simp [Formula.wrapped]
  rw [hw, primary, h (by simp [strength]), within_bind, within_succ]
  rfl

theorem readsPrimary_number {x : Float} : ReadsPrimary [.number x] (number x) 1 :=
  fun _ _ _ => rfl

theorem readsPrimary_text {s : String} : ReadsPrimary [.text s] (text s) 1 :=
  fun _ _ _ => rfl

theorem readsPrimary_symbol {name : String} : ReadsPrimary [.name name] (symbol name) 1 := by
  intro room rest hr
  obtain _ | ⟨t, rest⟩ := rest
  · rfl
  have ht : strength t < 6 := below_cons.mp hr
  rw [List.singleton_append, primary]
  · unfold named
    split
    case h_1 heq => cases heq; exact absurd ht (by decide)
    case h_2     => rfl
  · rintro _ ⟨⟩
    exact absurd ht (by decide)

/-! ## Lists -/

-- The words are formulas with commas between them.
structure ReadsItems (ts : List Token) (es : List Formula) (n : Nat) : Prop where
  starts : Starts ts
  length_le : es.length ≤ ts.length
  reads : ∀ {close room rest fuel}, strength close = 0 → close ≠ .comma → es.length ≤ fuel →
    listItems close (expression room) fuel (ts ++ close :: rest) = within n (room + 1) (.ok (es, rest))

variable {es : List Formula} {name : String}

theorem ReadsExpression.item (h : ReadsExpression ts e n) (hs : Starts ts) :
    ReadsItems ts [e] (n + 2) where
  starts := hs
  length_le := by
    obtain ⟨t, s, rfl, _⟩ := hs
    simp
  reads {close room rest fuel} hs hc hf := by
    obtain ⟨fuel, rfl⟩ := Nat.exists_eq_succ_of_ne_zero (n := fuel) (by simp at hf; omega)
    rw [listItems, h (by simp [hs]), within_bind, within_succ]
    refine congrArg (within (n + 1) room) ?_
    change (if close = .comma then _ else if close = close then _ else _) = _
    rw [if_neg hc, if_pos rfl]
    rfl

theorem ReadsExpression.items (h : ReadsExpression ts e n) (hs : Starts ts)
    (h' : ReadsItems ts' es n') : ReadsItems (ts ++ .comma :: ts') (e :: es) (max (n + 2) n') where
  starts := hs.append
  length_le := by
    have := h'.length_le
    simp
    omega
  reads {close room rest fuel} hs hc hf := by
    obtain ⟨fuel, rfl⟩ := Nat.exists_eq_succ_of_ne_zero (n := fuel) (by simp at hf; omega)
    rw [List.append_assoc, listItems, h (by simp [strength]), within_bind, ← within_within, within_succ]
    refine congrArg (within (n + 1) room) ?_
    change (listItems close (expression room) fuel (ts' ++ close :: rest) >>= fun r => _) = _
    rw [h'.reads hs hc (by simpa using hf), within_bind]
    rfl

theorem ReadsItems.list {close : Token} (h : ReadsItems ts es n) (hs : strength close = 0)
    (hc : close ≠ .comma) :
    list close (expression room) (ts ++ close :: rest) = within n (room + 1) (.ok (es, rest)) := by
  obtain ⟨t, s, rfl, ht⟩ := h.starts
  have hne : (t :: s ++ close :: rest).head? ≠ some close := by
    rintro ⟨⟩
    exact ht hs
  have hl := h.length_le
  rw [Formula.list, if_neg hne, h.reads hs hc]
  rw [List.length_append]
  omega

theorem list_close {close : Token} :
    list close (expression room) (close :: rest) = .ok ([], rest) := by
  rw [list, if_pos List.head?_cons, List.tail_cons]

theorem map_list {close : Token} (make : List Formula → Formula)
    (h : list close (expression room) (ts ++ close :: rest) = within n (room + 1) (.ok (es, rest))) :
    (list close (expression room) (ts ++ close :: rest)).map (fun r => (make r.1, r.2)) =
      within n (room + 1) (.ok (make es, rest)) := by
  rw [h, within_map]
  rfl

theorem readsPrimary_call (h : ∀ {room rest}, list .closeParen (expression room) (ts ++ .closeParen :: rest) =
    within n (room + 1) (.ok (es, rest))) :
    ReadsPrimary (.name name :: .openParen :: (ts ++ [.closeParen])) (call name es) n := by
  intro room rest _
  rw [← map_list (call name) h]
  simp only [List.cons_append, List.append_assoc, List.nil_append]
  rfl

theorem readsPrimary_matrix (h : ∀ {room rest},
    list .closeBracket (expression room) (ts ++ .closeBracket :: rest) =
      within n (room + 1) (.ok (es, rest))) :
    ReadsPrimary (.openBracket :: (ts ++ [.closeBracket])) (matrix es) n := by
  intro room rest _
  rw [← map_list matrix h]
  simp only [List.cons_append, List.append_assoc, List.nil_append]
  rfl

/-! ## Rows of operands -/

section

variable {operand : Nat → Reader Formula}

-- The operators that a row is made of are those of one precedence, and others end it.
structure IsLevel (p : Nat) (op? : Token → Option Op) : Prop where
  symbol : ∀ op, op.precedence = p → op? (.op op.symbol) = some op
  stops : ∀ t, strength t < p → op? t = none

theorem isLevel_sum : IsLevel 1 sumOp? where
  symbol op h := by cases op <;> first | rfl | cases h
  stops t h := by
    unfold sumOp?
    split <;> first | rfl | exact absurd h (by decide)

theorem isLevel_product : IsLevel 2 productOp? where
  symbol op h := by cases op <;> first | rfl | cases h
  stops t h := by
    unfold productOp?
    split <;> first | rfl | exact absurd h (by decide)

-- The words make up an operand.
def ReadsOperand (p : Nat) (operand : Nat → Reader Formula) (ts : List Token) (e : Formula) (n : Nat) :
    Prop :=
  ∀ ⦃room rest⦄, Below (p + 1) rest → operand room (ts ++ rest) = within n room (.ok (e, rest))

-- The words make up a row, at the start of a text or as the rest of a longer row.
structure ReadsRow (p : Nat) (op? : Token → Option Op) (operand : Nat → Reader Formula) (ts : List Token)
    (e : Formula) (n : Nat) : Prop where
  start : ∀ room {rest}, Below (p + 1) rest → ∃ fuel, rest.length ≤ fuel ∧
    chained op? (operand room) (ts ++ rest) = within n room (chain op? (operand room) fuel e rest)
  next : ∀ room lhs {rest fuel op}, Below (p + 1) rest → op.precedence = p →
    (.op op.symbol :: ts ++ rest).length ≤ fuel → ∃ fuel', rest.length ≤ fuel' ∧
      chain op? (operand room) fuel lhs (.op op.symbol :: ts ++ rest) =
        within n room (chain op? (operand room) fuel' (attach op lhs e) rest)

theorem chain_cons {op? : Token → Option Op} {operand : Reader Formula} {s : List Token}
    (h : op? t = some op) : chain op? operand (fuel + 1) lhs (t :: s) =
      operand s >>= fun r => chain op? operand fuel (binary op lhs r.1) r.2 := by
  simp only [chain, h]

theorem chain_of_stops {op? : Token → Option Op} {operand : Reader Formula} (hl : IsLevel p op?)
    (hr : Below p rest) : chain op? operand fuel lhs rest = .ok (lhs, rest) := by
  cases fuel
  case zero => rfl
  case succ fuel =>
    cases rest
    case nil => rfl
    case cons t rest => simp only [chain, hl.stops t (below_cons.mp hr)]

theorem ReadsOperand.all (hl : IsLevel p op?) (h : ReadsOperand p operand ts e n) (hr : Below p rest) :
    chained op? (operand room) (ts ++ rest) = within n room (.ok (e, rest)) := by
  rw [chained, h (hr.mono (Nat.le_succ p)), within_bind]
  exact congrArg (within n room) (chain_of_stops hl hr)

theorem ReadsOperand.row (hl : IsLevel p op?) (h : ReadsOperand p operand ts e n)
    (he : e.rootLevel? ≠ some p) : ReadsRow p op? operand ts e n where
  start room rest hr := ⟨rest.length, Nat.le_refl _, by rw [chained, h hr, within_bind]; rfl⟩
  next room lhs rest fuel op hr hp hf := by
    obtain ⟨fuel, rfl⟩ := Nat.exists_eq_succ_of_ne_zero (n := fuel) (by simp at hf; omega)
    refine ⟨fuel, by simp at hf; omega, ?_⟩
    rw [List.cons_append, chain_cons (hl.symbol op hp), h hr, within_bind,
      attach_of_rootLevel_ne (hp ▸ he)]
    rfl

theorem ReadsRow.all (hl : IsLevel p op?) (h : ReadsRow p op? operand ts e n) (hr : Below p rest) :
    chained op? (operand room) (ts ++ rest) = within n room (.ok (e, rest)) := by
  obtain ⟨fuel, _, hs⟩ := h.start room (hr.mono (Nat.le_succ p))
  rw [hs, chain_of_stops hl hr]

theorem ReadsRow.binary (hl : IsLevel p op?) (h : ReadsRow p op? operand ts a n)
    (h' : ReadsOperand p operand ts' b n') (hp : op.precedence = p) :
    ReadsRow p op? operand (ts ++ .op op.symbol :: ts') (binary op a b) (max n n') where
  start room rest hr := by
    have hb : Below (p + 1) (.op op.symbol :: ts' ++ rest) := by simp [hp]
    obtain ⟨fuel, hf, hs⟩ := h.start room hb
    obtain ⟨fuel, rfl⟩ := Nat.exists_eq_succ_of_ne_zero (n := fuel) (by simp at hf; omega)
    refine ⟨fuel, by simp at hf; omega, ?_⟩
    rw [List.append_assoc, hs, List.cons_append, chain_cons (hl.symbol op hp), h' hr, within_bind,
      within_within]
    rfl
  next room lhs rest fuel op' hr hp' hf := by
    have hb : Below (p + 1) (.op op.symbol :: ts' ++ rest) := by simp [hp]
    obtain ⟨fuel', hf', hs⟩ := h.next room lhs hb hp' (by simpa using hf)
    obtain ⟨fuel', rfl⟩ := Nat.exists_eq_succ_of_ne_zero (n := fuel') (by simp at hf'; omega)
    refine ⟨fuel', by simp at hf'; omega, ?_⟩
    rw [List.cons_append, List.append_assoc, ← List.cons_append, hs, List.cons_append,
      chain_cons (hl.symbol op hp), h' hr, within_bind, within_within, attach_binary (hp.trans hp'.symm)]
    rfl

theorem ReadsRow.regrouped (h : ReadsRow p op? operand ts a n) (h' : ReadsRow p op? operand ts' b n')
    (hp : op.precedence = p) :
    ReadsRow p op? operand (ts ++ .op op.symbol :: ts') (attach op a b) (max n n') where
  start room rest hr := by
    have hb : Below (p + 1) (.op op.symbol :: ts' ++ rest) := by simp [hp]
    obtain ⟨fuel, hf, hs⟩ := h.start room hb
    obtain ⟨fuel', hf', hn⟩ := h'.next room a hr hp hf
    exact ⟨fuel', hf', by rw [List.append_assoc, hs, hn, within_within]⟩
  next room lhs rest fuel op' hr hp' hf := by
    have hb : Below (p + 1) (.op op.symbol :: ts' ++ rest) := by simp [hp]
    obtain ⟨fuel', hf', hs⟩ := h.next room lhs hb hp' (by simpa using hf)
    obtain ⟨fuel'', hf'', hn⟩ := h'.next room (attach op' lhs a) hr hp hf'
    refine ⟨fuel'', hf'', ?_⟩
    rw [attach_attach (hp.trans hp'.symm), ← within_within, ← hn, ← hs]
    simp

end

end Storyworld.Formula
