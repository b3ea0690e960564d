import Storyworld.Command.Extract

/-!
How deep a text is in brackets, counted outside its quotes. A call ends at the parenthesis behind which
as many have been closed as opened, and nowhere before have there been fewer opened than closed.
-/

namespace Storyworld.Command

namespace Quoting

variable {q : Quoting} {c : Char} {s r p : List Char} {weight : Char → Int}

-- What a scan knows behind a text.
def after (q : Quoting) (s : List Char) : Quoting :=
  s.foldl next q

-- The characters outside the quotes.
def plain (q : Quoting) : List Char → List Char
  | [] => []
  | c :: s => if q.isPlain c then c :: plain (q.next c) s else plain (q.next c) s

-- What the characters outside the quotes weigh together.
def level (q : Quoting) (weight : Char → Int) : List Char → Int
  | [] => 0
  | c :: s =>
    if q.isPlain c then weight c + level (q.next c) weight s else level (q.next c) weight s

@[simp] theorem after_nil : q.after [] = q := rfl

@[simp] theorem after_cons : q.after (c :: s) = (q.next c).after s := rfl

theorem after_append : q.after (s ++ r) = (q.after s).after r :=
  List.foldl_append

@[simp] theorem plain_nil : q.plain [] = [] := rfl

theorem plain_cons :
    q.plain (c :: s) = if q.isPlain c then c :: (q.next c).plain s else (q.next c).plain s := rfl

theorem plain_append : q.plain (s ++ r) = q.plain s ++ (q.after s).plain r := by
  induction s generalizing q
  case nil          => simp
  case cons c s ih => simp only [List.cons_append, plain_cons, after_cons, ih]; split <;> rfl

theorem mem_of_mem_plain (h : c ∈ q.plain s) : c ∈ s := by
  induction s generalizing q
  case nil          => exact h
  case cons d s ih =>
    rw [plain_cons] at h
    split at h
    · cases List.mem_cons.mp h
      case inl h => exact h ▸ List.mem_cons_self
      case inr h => exact List.mem_cons_of_mem _ (ih h)
    · exact List.mem_cons_of_mem _ (ih h)

theorem plain_subset_plain (h : p <+: s) : q.plain p ⊆ q.plain s := by
  obtain ⟨r, rfl⟩ := h
  rw [plain_append]
  exact List.subset_append_left _ _

@[simp] theorem level_nil : q.level weight [] = 0 := rfl

theorem level_singleton : q.level weight [c] = if q.isPlain c then weight c else 0 := by
  simp [level]

theorem level_append :
    q.level weight (s ++ r) = q.level weight s + (q.after s).level weight r := by
  induction s generalizing q
  case nil         => simp
  case cons c s ih =>
    rw [List.cons_append, level, level, after_cons, ih]
    split
    · rw [Int.add_assoc]
    · rfl

theorem level_cons : q.level weight (c :: s) = q.level weight [c] + (q.next c).level weight s :=
  level_append (s := [c])

theorem level_eq_zero (h : ∀ c ∈ q.plain s, weight c = 0) : q.level weight s = 0 := by
  induction s generalizing q
  case nil         => rfl
  case cons c s ih =>
    rw [plain_cons] at h
    rw [level]
    split at h
    case isTrue hp  =>
      obtain ⟨hc, hs⟩ := List.forall_mem_cons.mp h
      rw [if_pos hp, hc, ih hs, Int.add_zero]
    case isFalse hp => rw [if_neg hp, ih h]

theorem isPlain_iff (h : isQuote c = false) : q.isPlain c ↔ q.quote = none := by
  simp [isPlain, h]

end Quoting

open Quoting

/-! ## Parentheses -/

def paren (c : Char) : Int :=
  if c = '(' then 1 else if c = ')' then -1 else 0

-- A text inside a parenthesis and `depth` others: its own parentheses are closed behind it, and those
-- around it nowhere before.
structure Encloses (q : Quoting) (depth : Nat) (s : List Char) : Prop where
  outside : (q.after s).quote = none
  parens  : q.level paren s = -depth
  nested  : ∀ p, p <+: s → -depth ≤ q.level paren p

variable {q : Quoting} {depth d : Nat} {c : Char} {s inner rest : List Char}

theorem encloses_nil : Encloses q depth [] ↔ q.quote = none ∧ depth = 0 := by
  constructor
  · intro h
    exact ⟨h.outside, by simpa [eq_comm] using h.parens⟩
  · rintro ⟨hq, rfl⟩
    exact ⟨hq, rfl, by simp⟩

-- Behind the first character `d` parentheses are open.
theorem nested_cons (h : (d : Int) = depth + q.level paren [c]) :
    (∀ p, p <+: c :: s → -depth ≤ q.level paren p) ↔
      ∀ p, p <+: s → -d ≤ (q.next c).level paren p := by
  constructor
  · intro hn p hp
    have := hn (c :: p) (List.cons_prefix_cons.mpr ⟨rfl, hp⟩)
    rw [level_cons] at this
    omega
  · intro hn p hp
    obtain rfl | ⟨t, rfl, ht⟩ := List.prefix_cons_iff.mp hp
    · simp
    · have := hn t ht
      rw [level_cons]
      omega

theorem encloses_cons (h : (d : Int) = depth + q.level paren [c]) :
    Encloses q depth (c :: s) ↔ Encloses (q.next c) d s := by
  have hl : q.level paren (c :: s) = -depth ↔ (q.next c).level paren s = -d := by
    rw [level_cons]
    omega
  constructor
  · intro he
    exact ⟨he.outside, hl.mp he.parens, (nested_cons h).mp he.nested⟩
  · intro he
    exact ⟨he.outside, hl.mpr he.parens, (nested_cons h).mpr he.nested⟩

-- The parenthesis that closes the innermost of none is the one that is looked for.
theorem level_lt_iff :
    depth + q.level paren [c] < 0 ↔ q.quote = none ∧ c = ')' ∧ depth = 0 := by
  rw [level_singleton]
  by_cases hc : c = ')'
  case pos =>
    subst hc
    rw [← isPlain_iff (c := ')') rfl]
    have hp : paren ')' = -1 := rfl
    rw [hp]
    split
    case isTrue h  => simp only [h, true_and]; omega
    case isFalse h => exact iff_of_false (by omega) fun hp => h hp.1
  case neg =>
    have : ¬(depth : Int) < 0 := by omega
    split <;> simp [paren, hc]
    split <;> omega

theorem closing?_cons :
    closing? q depth (c :: s) =
      if depth + q.level paren [c] < 0 then some ([], s)
      else (closing? (q.next c) (depth + q.level paren [c]).toNat s).map
        fun (inner, rest) => (c :: inner, rest) := by
  simp only [closing?, level_singleton]
  by_cases hp : q.isPlain c
  case neg => simp [hp]
  case pos =>
    simp only [hp, if_true]
    by_cases ho : c = '('
    case pos => simp [ho, paren, show ¬(depth : Int) + 1 < 0 by omega]
    case neg =>
      by_cases hc : c = ')'
      case neg => simp [ho, hc, paren]
      case pos =>
        cases depth
        case zero   => simp [hc, paren]
        case succ d =>
          have : (d : Int) + 1 + -1 = d := by omega
          simp [hc, paren, this, show ¬(d : Int) < 0 by omega]

theorem closing?_eq_some_iff :
    closing? q depth s = some (inner, rest) ↔ s = inner ++ ')' :: rest ∧ Encloses q depth inner := by
  induction s generalizing q depth inner
  case nil => simp [closing?]
  case cons c s ih =>
    rw [closing?_cons]
    by_cases hl : depth + q.level paren [c] < 0
    case pos =>
      obtain ⟨hq, hc, hd⟩ := level_lt_iff.mp hl
      rw [if_pos hl]
      cases inner
      case nil          => simp [encloses_nil, hq, hc, hd]
      case cons d inner =>
        have hn : ¬Encloses q depth (c :: inner) := fun h => by
          have := h.nested [c] (by simp)
          omega
        simp only [Option.some.injEq, Prod.mk.injEq, List.nil_eq, reduceCtorEq, false_and, false_iff]
        rintro ⟨he, h⟩
        exact hn (List.cons.inj he |>.1 ▸ h)
    case neg =>
      rw [if_neg hl]
      cases inner
      case nil          =>
        have hn : ¬(c = ')' ∧ Encloses q depth []) := by
          rintro ⟨hc, he⟩
          exact hl <| level_lt_iff.mpr ⟨(encloses_nil.mp he).1, hc, (encloses_nil.mp he).2⟩
        simpa using fun hc _ => not_and.mp hn hc
      case cons d inner =>
        have he := @encloses_cons q depth (depth + q.level paren [c]).toNat c inner (by omega)
        simp only [Option.map_eq_some_iff, Prod.exists, Prod.mk.injEq, List.cons.injEq,
          List.cons_append]
        constructor
        · rintro ⟨_, _, h, ⟨rfl, rfl⟩, rfl⟩
          obtain ⟨hs, h⟩ := ih.mp h
          exact ⟨⟨rfl, hs⟩, he.mpr h⟩
        · rintro ⟨⟨rfl, hs⟩, h⟩
          exact ⟨_, _, ih.mpr ⟨hs, he.mp h⟩, ⟨rfl, rfl⟩, rfl⟩

-- Where no parenthesis is the one looked for, none closes too many.
theorem closing?_eq_none_iff :
    closing? q depth s = none ↔ ∀ p, p <+: s → -depth ≤ q.level paren p := by
  induction s generalizing q depth
  case nil => simp [closing?]
  case cons c s ih =>
    rw [closing?_cons]
    by_cases hl : depth + q.level paren [c] < 0
    case pos =>
      rw [if_pos hl]
      simp only [reduceCtorEq, false_iff]
      intro h
      have := h [c] (by simp)
      omega
    case neg =>
      rw [if_neg hl, Option.map_eq_none_iff, ih]
      exact (nested_cons (by omega)).symm

/-! ## The end of a call -/

-- How many parentheses are open behind a text.
def openParens (s : List Char) : Int :=
  level {} paren s

theorem openParens_call : openParens ('(' :: s) = 1 + level {} paren s :=
  level_cons

-- Behind the opening parenthesis, `inner` ends where the depth is back at zero for the first time.
structure Closes (s inner rest : List Char) : Prop where
  split : s = inner ++ ')' :: rest
  back  : openParens ('(' :: (inner ++ [')'])) = 0
  first : ∀ p, p <+: inner → 0 < openParens ('(' :: p)

def Unclosed (s : List Char) : Prop :=
  ∀ p, p <+: s → 0 < openParens ('(' :: p)

-- A parenthesis inside quotes closes nothing.
theorem level_closing :
    (q.quote = none ∧ q.level paren [')'] = -1) ∨ (q.quote ≠ none ∧ q.level paren [')'] = 0) := by
  have h : q.isPlain ')' ↔ q.quote = none := isPlain_iff rfl
  rw [level_singleton]
  by_cases hq : q.quote = none
  · exact .inl ⟨hq, if_pos (h.mpr hq)⟩
  · exact .inr ⟨hq, if_neg (mt h.mp hq)⟩

theorem closes_iff : Closes s inner rest ↔ closing? {} 0 s = some (inner, rest) := by
  rw [closing?_eq_some_iff]
  constructor
  · intro h
    have hb := h.back
    have hl := h.first inner (List.prefix_refl inner)
    rw [openParens_call, level_append] at hb
    rw [openParens_call] at hl
    obtain ⟨ho, hc⟩ | ⟨-, hc⟩ := @level_closing (after {} inner)
    · refine ⟨h.split, ho, by omega, fun p hp => ?_⟩
      have := h.first p hp
      rw [openParens_call] at this
      omega
    · omega
  · rintro ⟨hs, h⟩
    have hl := h.parens
    refine ⟨hs, ?_, fun p hp => ?_⟩
    · rw [openParens_call, level_append]
      obtain ⟨-, hc⟩ | ⟨hn, -⟩ := @level_closing (after {} inner)
      · omega
      · exact absurd h.outside hn
    · have := h.nested p hp
      rw [openParens_call]
      omega

theorem Encloses.closes (h : Encloses {} 0 inner) : Closes (inner ++ ')' :: rest) inner rest :=
  closes_iff.mpr <| closing?_eq_some_iff.mpr ⟨rfl, h⟩

theorem Closes.encloses (h : Closes s inner rest) : Encloses {} 0 inner :=
  (closing?_eq_some_iff.mp <| closes_iff.mp h).2

theorem unclosed_iff : Unclosed s ↔ closing? {} 0 s = none := by
  rw [closing?_eq_none_iff]
  refine forall₂_congr fun p _ => ?_
  rw [openParens_call]
  omega

end Storyworld.Command
