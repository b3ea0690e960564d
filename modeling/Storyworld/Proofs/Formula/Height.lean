import Storyworld.Proofs.Formula.RoundTrip

/-!
How high a formula grows that is read from a text. Parentheses, signs, exponents, calls and matrices take
room, and there is not much of it. Rows of operators of one kind take none: they are as long as the text
makes them, and a row grows on its left.
-/

namespace Storyworld.Formula

variable {k c m p room fuel : Nat} {e lhs : Formula} {op? : Token → Option Op} {s : List Token}
  {operand item inner exponent : Reader Formula} {close : Token} {name text : String} {α : Type}
  {P Q : α → Prop} {q : Formula → Prop}

/-! ## Rows -/

-- The length of the row of operators of that precedence that the root ends.
def rowLength (p : Nat) : Formula → Nat
  | binary op a _ => if op.precedence = p then rowLength p a + 1 else 0
  | _ => 0

-- The number of marks in a row at the root.
def marks : Formula → Nat
  | factorial e => marks e + 1
  | _ => 0

structure RowsWithin (k : Nat) (e : Formula) : Prop where
  sums : rowLength 1 e ≤ k
  products : rowLength 2 e ≤ k
  marks : e.marks ≤ k

theorem height_pos : 1 ≤ e.height := by
  cases e <;> simp [height]

theorem Every.root (h : e.Every q) : q e := by
  cases e
  case number | text | symbol => exact h
  all_goals exact h.1

/-! ## Readers -/

-- What the reader makes of words has the property.
def Makes (P : α → Prop) (read : Reader α) : Prop :=
  ∀ s, Yields (fun r => P r.1) (read s)

-- Twice the height, and something to spare, is no more than the bound if the rows are no longer than `k`.
def IsLow (k c m : Nat) (e : Formula) : Prop :=
  e.Every (RowsWithin k) → 2 * e.height + c ≤ m

def AreLow (k c m : Nat) (es : List Formula) : Prop :=
  EveryOf (RowsWithin k) es → heightOfAll es = 0 ∨ 2 * heightOfAll es + c ≤ m

-- The row so far makes up for the height that it adds.
theorem makes_chain (hop : ∀ t op, op? t = some op → op.precedence = p) (h : Makes (IsLow k c m) operand)
    (hl : lhs.Every (RowsWithin k) → 2 * lhs.height + c ≤ m + 2 * rowLength p lhs) :
    Makes (fun e => e.Every (RowsWithin k) → 2 * e.height + c ≤ m + 2 * rowLength p e)
      (chain op? operand fuel lhs) := by
  intro s
  induction fuel generalizing lhs s
  case zero => exact yields_ok hl
  case succ fuel ih =>
    cases s
    case nil => exact yields_ok hl
    case cons t rest =>
      simp only [chain]
      split
      case h_1 => exact yields_ok hl
      case h_2 op ht =>
        refine (h rest).bind fun r hr => ih ?_ r.2
        intro hb
        have hl := hl hb.2.1
        have hr := hr hb.2.2
        simp only [height, rowLength, if_pos (hop t op ht)]
        omega

theorem makes_chained (hop : ∀ t op, op? t = some op → op.precedence = p)
    (hk : ∀ e, RowsWithin k e → rowLength p e ≤ k) (h : Makes (IsLow k c m) operand) :
    Makes (IsLow k c (m + 2 * k)) (chained op? operand) := by
  intro s
  refine (h s).bind fun r hr => ?_
  refine (makes_chain hop h (fun he => (hr he).trans (Nat.le_add_right _ _)) r.2).mono fun a ha he => ?_
  have := hk a.1 he.root
  exact (ha he).trans (by omega)

theorem makes_listItems (h : Makes (IsLow k c m) item) : Makes (AreLow k c m) (listItems close item fuel) := by
  intro s
  induction fuel generalizing s
  case zero => exact yields_error
  case succ fuel ih =>
    refine (h s).bind ?_
    rintro ⟨e, _ | ⟨t, rest⟩⟩ (he : IsLow k c m e)
    case nil => exact yields_error
    case cons =>
      dsimp only
      split
      case isTrue =>
        refine (ih rest).bind fun r hes => yields_ok fun ha => .inr ?_
        have he := he ha.1
        have hes := hes ha.2
        simp only [heightOfAll]
        omega
      case isFalse =>
        split
        case isTrue =>
          refine yields_ok fun ha => .inr ?_
          have he := he ha.1
          simp only [heightOfAll]
          omega
        case isFalse => exact yields_error

theorem makes_list (close : Token) (h : Makes (IsLow k c m) item) : Makes (AreLow k c m) (list close item) := by
  intro s
  unfold list
  split
  case isTrue  => exact yields_ok fun _ => .inl rfl
  case isFalse => exact makes_listItems h _

-- What a formula in parentheses, a call or a matrix spares makes up for its own node.
theorem makes_named (h : Makes (IsLow k 2 m) inner) : Makes (IsLow k 0 (max 2 m)) (named inner name) := by
  intro s
  unfold named
  split
  case h_1 rest =>
    refine (makes_list .closeParen h rest).map fun r hr he => ?_
    have := hr he.2
    simp only [height]
    omega
  case h_2 => exact yields_ok fun _ => by simp only [height]; omega

theorem makes_primary (h : Makes (IsLow k 2 m) inner) : Makes (IsLow k 0 (max 2 m)) (primary inner) := by
  intro s
  unfold primary
  split
  case h_1 => exact yields_error
  case h_2 => exact yields_ok fun _ => by simp only [height]; omega
  case h_3 => exact yields_ok fun _ => by simp only [height]; omega
  case h_4 rest =>
    refine (h rest).bind ?_
    rintro ⟨e, rest'⟩ (he : IsLow k 2 m e)
    dsimp only
    split
    case h_1 => exact yields_error
    case h_2 => exact yields_ok fun ha => by have := he ha; dsimp only; omega
    case h_3 => exact yields_error
  case h_5 rest =>
    refine (makes_list .closeBracket h rest).map fun r hr he => ?_
    have := hr he.2
    simp only [height]
    omega
  case h_6 =>
    split
    case isTrue =>
      split
      case h_1 => exact yields_error
      case h_2 => exact makes_named h _
      case h_3 => exact yields_error
    case isFalse => exact yields_ok fun _ => by simp only [height]; omega
  case h_7 => exact makes_named h _
  case h_8 => exact yields_error

theorem height_factorials (he : e.Every (RowsWithin k) → 2 * e.height ≤ m + 2 * e.marks) :
    (factorials e s).1.Every (RowsWithin k) →
      2 * (factorials e s).1.height ≤ m + 2 * (factorials e s).1.marks := by
  fun_induction factorials e s
  case case1 ih =>
    refine ih fun ha => ?_
    have := he ha.2
    simp only [height, marks]
    omega
  case case2 => exact he

-- An exponent is there only if there is room for it.
theorem makes_power (h : Makes (IsLow k 2 m) inner) (h' : Makes (IsLow k k m) exponent) :
    Makes (IsLow k k (m + (3 * k + 2))) (power inner exponent) := by
  intro s
  refine (makes_primary h s).bind ?_
  rintro ⟨e, rest⟩ (he : IsLow k 0 (max 2 m) e)
  have hb := height_factorials (s := rest) fun ha => (he ha).trans (Nat.le_add_right _ _)
  dsimp only
  split
  case h_1 base rest' heq =>
    rw [heq] at hb
    refine (h' rest').bind fun x hx => yields_ok fun ha => ?_
    have hb := hb ha.2.1
    have hm := ha.2.1.root.marks
    have hx := hx ha.2.2
    have := height_pos (e := x.1)
    simp only [height] at hb hm hx ⊢
    omega
  case h_2 base rest' _ heq =>
    rw [heq] at hb
    refine yields_ok fun ha => ?_
    have hb := hb ha
    have hm := ha.root.marks
    dsimp only at hb hm ⊢
    omega

theorem precedence_of_sumOp? {t : Token} {op : Op} (h : sumOp? t = some op) : op.precedence = 1 := by
  unfold sumOp? at h
  split at h <;> cases h <;> rfl

theorem precedence_of_productOp? {t : Token} {op : Op} (h : productOp? t = some op) : op.precedence = 2 := by
  unfold productOp? at h
  split at h <;> cases h <;> rfl

-- Each level has room for three rows and two nodes; every second one is that of a formula.
theorem makes_expression_and_signed :
    Makes (IsLow k 2 ((3 * k + 2) * room)) (expression room) ∧
      Makes (IsLow k k ((3 * k + 2) * room)) (signed room) := by
  induction room
  case zero => exact ⟨fun _ => yields_error, fun _ => yields_error⟩
  case succ room ih =>
    rw [Nat.mul_succ]
    generalize (3 * k + 2) * room = m at ih
    constructor
    case left =>
      have hp : Makes (IsLow k k (m + 2 * k)) (chained productOp? (signed room)) :=
        makes_chained (fun _ _ => precedence_of_productOp?) (fun _ h => h.products) ih.2
      have hs : Makes (IsLow k k (m + 2 * k + 2 * k)) (chained sumOp? (chained productOp? (signed room))) :=
        makes_chained (fun _ _ => precedence_of_sumOp?) (fun _ h => h.sums) hp
      refine fun s => (hs s).mono fun r hr ha => ?_
      have := hr ha
      omega
    case right =>
      intro s
      unfold signed
      split
      case h_1 rest =>
        refine (ih.2 rest).map fun r hr ha => ?_
        have := hr ha.2
        simp only [height]
        omega
      case h_2 rest =>
        refine (ih.2 rest).mono fun r hr ha => ?_
        have := hr ha
        omega
      case h_3 => exact makes_power ih.1 ih.2 s

theorem height_of_parse (h : parse text = .ok e) (hr : e.Every (RowsWithin k)) :
    2 * e.height < (3 * k + 2) * maxNesting := by
  suffices hy : Yields (IsLow k 2 ((3 * k + 2) * maxNesting)) (parse text) by
    have := hy e h hr
    omega
  have hm : Makes (IsLow k 2 ((3 * k + 2) * maxNesting)) (expression maxNesting) :=
    makes_expression_and_signed.1
  unfold parse
  refine yields_bind fun s => (hm s).bind ?_
  rintro ⟨e, _ | ⟨t, rest⟩⟩ he
  case nil  => exact yields_ok he
  case cons => exact yields_error

theorem wound_low : parse "hits * (armor / level)" = .ok wound ∧ wound.Every (RowsWithin 1) ∧
    2 * wound.height < (3 * 1 + 2) * maxNesting := by
  have hr : wound.Every (RowsWithin 1) := by
    refine ⟨⟨?_, ?_, ?_⟩, ⟨?_, ?_, ?_⟩, ⟨?_, ?_, ?_⟩, ⟨?_, ?_, ?_⟩, ⟨?_, ?_, ?_⟩⟩ <;> decide
  exact ⟨parse_wound, hr, height_of_parse parse_wound hr⟩

/-! ## Long rows -/

-- One point more for every victory.
def tally : Nat → Formula
  | 0 => symbol "x"
  | n + 1 => binary .add (tally n) (symbol "x")

def tallyText (n : Nat) : List Char :=
  'x' :: (List.replicate n " + x".toList).flatten

variable {n : Nat}

theorem height_tally : (tally n).height = n + 1 := by
  induction n
  case zero      => rfl
  case succ n ih => simp only [tally, height, ih]; omega

theorem write_tally : (tally n).write = tallyText n := by
  induction n
  case zero => rfl
  case succ n ih =>
    have hw : wrapsRight .add (symbol "x") = false := rfl
    have hx : (symbol "x").write = ['x'] := rfl
    rw [tally, write, ih, wrapsLeft_of_sum rfl, hw, hx, tallyText, tallyText, List.replicate_succ',
      List.flatten_concat]
    rfl

theorem reads_tally : (tally n).Every IsReadable ∧ (tally n).nesting = 1 ∧ (tally n).regrouped = tally n := by
  have hw : wrapsRight .add (symbol "x") = false := rfl
  have hr : regroups .add (symbol "x") = false := rfl
  induction n
  case zero => exact ⟨⟨'x', [], by decide⟩, rfl, rfl⟩
  case succ n ih =>
    obtain ⟨he, hn, hg⟩ := ih
    refine ⟨⟨trivial, he, 'x', [], by decide⟩, ?_, ?_⟩
    · rw [tally, nesting_binary (by decide), wrapsLeft_of_sum rfl, hw, operandNesting, hn]
      rfl
    · rw [tally, regrouped, hr, hg]
      rfl

-- However long the sum, it is read.
theorem parse_tally : parse (.ofList (tallyText n)) = .ok (tally n) := by
  obtain ⟨he, hn, hg⟩ := reads_tally (n := n)
  have hd := parse_display he
  rw [display, write_tally, hn, hg] at hd
  exact hd.trans (if_pos (by decide))

theorem tally_towers : parse (.ofList (tallyText 600)) = .ok (tally 600) ∧
    4 * maxNesting < (tally 600).height :=
  ⟨parse_tally, height_tally ▸ by decide⟩

end Storyworld.Formula
