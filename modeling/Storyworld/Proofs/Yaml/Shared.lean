import Storyworld.Proofs.Literal.Quoted
import Storyworld.Proofs.Yaml.Quoted

/-!
Strings in quotes that are literals and scalars as well: where both read the same characters in them.
-/

namespace Storyworld.Yaml

open Literal (Spells)

variable {quote c d x : Char} {c? : Option Char} {s t text rest e hex body : List Char} {n : Nat}

/-! ## Escapes in common -/

def sharedLetters : List (Char × Char) :=
  [('0', '\x00'), ('b', '\x08'), ('t', '\t'), ('\t', '\t'), ('n', '\n'), ('v', '\x0B'), ('f', '\x0C'),
    ('r', '\r'), (' ', ' '), ('"', '"'), ('/', '/'), ('\\', '\\')]

-- Letters that stand for a character in YAML, and for themselves in literals.
def ownLetters : List (Char × Char) :=
  [('a', '\x07'), ('e', '\x1B'), ('N', '\u0085'), ('_', '\u00A0'), ('L', '\u2028'), ('P', '\u2029')]

-- An escape by which literals and YAML mean the same character.
inductive Shared : List Char → Option Char → Prop where
  | letter {d x : Char} (h : (d, x) ∈ sharedLetters) : Shared [d] (some x)
  | byte {hex : List Char} {x : Char} (hl : hex.length = 2) (hc : charOfCode? hex = some x) :
    Shared ('x' :: hex) (some x)
  | unit {hex : List Char} {x : Char} (hl : hex.length = 4) (hc : charOfCode? hex = some x) :
    Shared ('u' :: hex) (some x)

theorem escape?_of_mem : ∀ p ∈ sharedLetters ++ ownLetters, escape? p.1 = some (.char p.2) := by
  simp [sharedLetters, ownLetters, escape?]

theorem escape?_cases {k : Escape} (h : escape? d = some k) :
    (∃ x, k = .char x ∧ (d, x) ∈ sharedLetters ++ ownLetters) ∨
      d = 'x' ∧ k = .code 2 ∨ d = 'u' ∧ k = .code 4 ∨ d = 'U' ∧ k = .code 8 := by
  by_cases hd : d ∈ (sharedLetters ++ ownLetters).map Prod.fst
  case pos =>
    obtain ⟨p, hp, rfl⟩ := List.mem_map.mp hd
    exact .inl ⟨p.2, Option.some.inj (h.symm.trans (escape?_of_mem p hp)), hp⟩
  case neg =>
    simp only [sharedLetters, ownLetters, List.cons_append, List.nil_append, List.map_cons, List.map_nil,
      List.mem_cons, List.not_mem_nil, or_false, not_or] at hd
    unfold escape? at h
    simp only [hd, or_self, if_false] at h
    refine .inr ?_
    split at h
    case isTrue hx => exact .inl ⟨hx, (Option.some.inj h).symm⟩
    case isFalse =>
    split at h
    case isTrue hx => exact .inr (.inl ⟨hx, (Option.some.inj h).symm⟩)
    case isFalse =>
    split at h
    case isTrue hx => exact .inr (.inr ⟨hx, (Option.some.inj h).symm⟩)
    case isFalse   => cases h

theorem literal_own : ∀ p ∈ ownLetters, Literal.escape [p.1] = .ok (some p.1, []) ∧ p.1 ≠ p.2 := by
  decide

theorem shared_of_letter (h : Literal.Escape [d] (some x)) (hy : escape? d = some (.char x)) :
    Shared [d] (some x) := by
  obtain ⟨y, he, hm⟩ | ⟨-, he⟩ | ⟨-, he⟩ | ⟨-, he⟩ := escape?_cases hy <;> cases he
  obtain hm | hm := List.mem_append.mp hm
  · exact .letter hm
  · have ho := literal_own _ hm
    have hx := (Literal.escape_append (s := []) h).symm.trans ho.1
    simp only [Except.ok.injEq, Prod.mk.injEq, Option.some.injEq, and_true] at hx
    exact absurd hx.symm ho.2

theorem Shared.escapes (h : Shared e (some x)) : Escapes e x := by
  cases h with
  | letter h   => exact .letter (escape?_of_mem _ (List.mem_append_left _ h))
  | byte hl hc => exact .code rfl hl hc
  | unit hl hc => exact .code rfl hl hc

theorem foldl_of_mapM {ds : List Nat} {n : Nat} (h : hex.mapM Decimal.digitValue? = some ds) :
    hex.foldl (fun n? c => do
      let n ← n?
      let d ← Decimal.digitValue? c
      if d < 16 then some (16 * n + d) else none) (some n) = some (ds.foldl (fun n d => 16 * n + d) n) := by
  induction hex generalizing ds n
  case nil =>
    cases h
    rfl
  case cons c hex ih =>
    rw [List.mapM_cons] at h
    obtain ⟨d, hd, h⟩ := Option.bind_eq_some_iff.mp h
    obtain ⟨ds', hs, h⟩ := Option.bind_eq_some_iff.mp h
    cases h
    have step : (some n >>= fun n => Decimal.digitValue? c >>= fun d =>
        if d < 16 then some (16 * n + d) else none) = some (16 * n + d) := by
      simp [hd, Literal.digitValue?_lt hd]
    rw [List.foldl_cons, List.foldl_cons, step]
    exact ih hs

-- A number in both notations, and the same one; a sign is allowed in literals only.
theorem charOfHex?_of_charOfCode? (hl : hex ≠ []) (h : charOfCode? hex = some x) :
    Literal.charOfHex? hex = some x := by
  obtain ⟨ds, hd, h⟩ := Option.bind_eq_some_iff.mp h
  have hr : Decimal.readNat? 16 hex = some (ds.foldl (fun n d => 16 * n + d) 0) := by
    obtain ⟨c, r, rfl⟩ := List.exists_cons_of_ne_nil hl
    have hp : c ≠ '+' := by
      rintro rfl
      rw [List.mapM_cons] at hd
      cases hd
    unfold Decimal.readNat?
    dsimp only
    split
    case h_1 h => exact absurd (List.cons.inj h).1 hp
    case h_2   => exact (if_neg (by simp)).trans (foldl_of_mapM hd)
  rw [Literal.charOfHex?, hr]
  exact h

/-! ## Double quotes -/

theorem isHex_of_charOfCode? (h : charOfCode? hex = some x) : ∀ c ∈ hex, Literal.isHex c := by
  by_cases hn : hex = []
  case pos => simp [hn]
  case neg => exact Literal.isHex_of_charOfHex? (charOfHex?_of_charOfCode? hn h)

-- Both notations take the same escape off a text, unless it is one with eight digits, which are no part of
-- it in literals.
theorem escapes_cases {r : List Char} (h : Literal.Escape e c?) (hy : Escapes t x) (ha : t ++ s = e ++ r) :
    t = e ∧ s = r ∨
      e = ['U'] ∧ ∃ hex, t = 'U' :: hex ∧ hex.length = 8 ∧ charOfCode? hex = some x ∧ r = hex ++ s := by
  cases h with
  | letter hd =>
    cases hy with
    | letter hy =>
      obtain ⟨rfl, rfl⟩ := List.cons.inj ha
      exact .inl ⟨rfl, rfl⟩
    | @code _ _ _ hex hy hl hc =>
      obtain ⟨rfl, ht⟩ := List.cons.inj ha
      obtain ⟨y, he, -⟩ | ⟨rfl, he⟩ | ⟨rfl, he⟩ | ⟨rfl, he⟩ := escape?_cases hy <;> cases he
      · cases hd
      · cases hd
      · exact .inr ⟨rfl, hex, rfl, hl, hc, ht.symm⟩
  | byte hl _ | unit hl _ =>
    cases hy with
    | letter hy =>
      obtain ⟨rfl, -⟩ := List.cons.inj ha
      cases hy
    | code hy hl' _ =>
      obtain ⟨rfl, ht⟩ := List.cons.inj ha
      cases hy
      obtain ⟨rfl, rfl⟩ := List.append_inj ht (hl'.trans hl.symm)
      exact .inl ⟨rfl, rfl⟩
  | braced =>
    cases hy with
    | letter hy =>
      obtain ⟨rfl, -⟩ := List.cons.inj ha
      cases hy
    | @code _ _ _ hex hy hl hc =>
      obtain ⟨rfl, ht⟩ := List.cons.inj ha
      cases hy
      obtain ⟨d, ds, rfl⟩ := List.exists_cons_of_length_eq_add_one hl
      obtain ⟨rfl, -⟩ := List.cons.inj ht
      exact absurd (isHex_of_charOfCode? hc '{' List.mem_cons_self) (by decide)

theorem Spells.of_append {E : List Char → Option Char → Prop} (h : Spells E quote (t ++ body) s)
    (hb : '\\' ∉ t) : ∃ r, s = t ++ r ∧ Spells E quote body r := by
  induction t generalizing s
  case nil => exact ⟨s, rfl, h⟩
  case cons c t ih =>
    simp only [List.mem_cons, not_or] at hb
    generalize hx : c :: t ++ body = b at h
    cases h with
    | nil => cases hx
    | char _ _ h =>
      obtain ⟨rfl, rfl⟩ := List.cons.inj hx
      obtain ⟨r, rfl, hr⟩ := ih h hb.2
      exact ⟨r, rfl, hr⟩
    | escape => exact absurd (List.cons.inj hx).1.symm hb.1

theorem shared_of_escape (h : Literal.Escape e (some c)) (hy : Escapes e x) (hc : x = c) : Shared e (some c) := by
  subst hc
  cases hy with
  | letter hy => exact shared_of_letter h hy
  | @code d _ _ hex hy hl hc =>
    obtain ⟨y, he, -⟩ | ⟨rfl, he⟩ | ⟨rfl, he⟩ | ⟨rfl, he⟩ := escape?_cases hy <;> cases he
    · exact .byte hl hc
    · exact .unit hl hc
    · cases h with
      | letter => cases hl

-- Only literals have an escape that stands for nothing.
theorem exists_of_escapes (h : Literal.Escape e c?) (hy : Escapes e x) : ∃ c, c? = some c := by
  have hn : ∀ p ∈ sharedLetters ++ ownLetters, Literal.escape [p.1] ≠ .ok (none, []) := by decide
  cases h with
  | byte | unit | braced => exact ⟨_, rfl⟩
  | letter h =>
    cases c?
    case some c => exact ⟨c, rfl⟩
    case none =>
      cases hy with
      | letter hy =>
        obtain ⟨y, -, hm⟩ | ⟨-, he⟩ | ⟨-, he⟩ | ⟨-, he⟩ := escape?_cases hy
        · exact absurd h (hn _ hm)
        all_goals cases he
      | code hy hl =>
        obtain ⟨y, he, -⟩ | ⟨-, he⟩ | ⟨-, he⟩ | ⟨-, he⟩ := escape?_cases hy <;> cases he <;> cases hl

theorem exists_of_append {r : List Char} (h : body ++ [quote] = t ++ r) (hq : quote ∉ t) :
    ∃ b, body = t ++ b ∧ r = b ++ [quote] := by
  obtain ⟨a, rfl, ha⟩ | ⟨b, rfl, rfl⟩ := List.append_eq_append_iff.mp h
  · cases a
    case nil => exact ⟨[], by simp, ha.symm⟩
    case cons c a =>
      obtain ⟨rfl, -⟩ := List.cons.inj ha
      simp at hq
  · exact ⟨b, rfl, rfl⟩

-- What YAML reads is no longer than what the literal stands for, and the same only if all escapes are shared.
theorem shared_of_quoted (h : Spells Literal.Escape '"' body s) (hy : Quoted '"' (body ++ ['"']) text rest) :
    text.length ≤ s.length ∧ (text = s → Spells Shared '"' body s) := by
  induction hl : body.length using Nat.strongRecOn generalizing body s text
  case ind n ih =>
  subst hl
  cases h with
  | nil =>
    obtain ⟨rfl, -⟩ | ⟨hq, -⟩ := hy.of_quote
    · exact ⟨Nat.le_refl _, fun _ => .nil⟩
    · cases hq
  | @char c b s hq hb h =>
    obtain ⟨t, rfl, ht⟩ := hy.of_char hq fun h => hb h.2
    obtain ⟨hl, hs⟩ := ih b.length (Nat.lt_succ_self _) h ht rfl
    exact ⟨Nat.succ_le_succ hl, fun he => .char hq hb (hs (List.cons.inj he).2)⟩
  | @escape e c? b s he h =>
    obtain ⟨e', r, x, t, ha, hx, rfl, ht⟩ := hy.of_backslash
    replace ha : e' ++ r = e ++ (b ++ ['"']) := by simpa using ha.symm
    obtain ⟨rfl, rfl⟩ | ⟨rfl, hex, rfl, hl, hc, hb⟩ := escapes_cases he hx ha
    case inl =>
      obtain ⟨hl, hs⟩ := ih b.length (by simp only [List.length_cons, List.length_append]; omega) h ht rfl
      obtain ⟨c, rfl⟩ := exists_of_escapes he hx
      refine ⟨Nat.succ_le_succ hl, fun hc => ?_⟩
      obtain ⟨hc, hs'⟩ := List.cons.inj hc
      exact .escape (shared_of_escape he hx hc) (hs hs')
    case inr =>
      -- The digits are read as such by the literal, which makes it longer.
      have hh {c : Char} (hc : Literal.isHex c = false) : c ∉ hex := fun hm => by
        cases (isHex_of_charOfCode? ‹_› c hm).symm.trans hc
      obtain ⟨b, rfl, rfl⟩ := exists_of_append hb (hh (by decide))
      obtain ⟨s, rfl, hs⟩ := Spells.of_append h (hh (by decide))
      have hl := (ih b.length (by simp only [List.length_cons, List.length_append]; omega) hs ht rfl).1
      have hu : c? = some 'U' := by
        cases he with
        | letter he =>
          cases he
          rfl
      subst hu
      refine ⟨by simp; omega, fun he => ?_⟩
      have := congrArg List.length he
      simp at this
      omega

theorem quoted_of_shared (h : Spells Shared '"' body s) : Quoted '"' (body ++ '"' :: rest) s rest := by
  induction h
  case nil => exact .close (by simp)
  case char hq hb _ ih => exact .char hq (fun h => hb h.2) ih
  case escape e c? b s he _ ih =>
    obtain ⟨x, rfl⟩ : ∃ x, c? = some x := by cases he <;> exact ⟨_, rfl⟩
    simpa using Quoted.escape rfl he.escapes ih

/-! ## Single quotes -/

theorem quoted_single (h : Spells Literal.Escape '\'' body s) (hb : '\\' ∉ body) :
    Quoted '\'' (body ++ ['\'']) body [] := by
  induction h
  case nil => exact .close (by simp)
  case char hq _ _ ih =>
    simp only [List.mem_cons, not_or] at hb
    exact .char hq (by simp) (ih hb.2)
  case escape => simp at hb

-- To YAML a backslash is one, and the quote behind it ends the scalar.
theorem single_of_quoted (h : Spells Literal.Escape '\'' body s) (hy : Quoted '\'' (body ++ ['\'']) text rest) :
    '\'' ∉ text ∧ (text = body ∨ '\'' ∈ s) := by
  induction h generalizing text
  case nil =>
    obtain ⟨rfl, -⟩ | ⟨-, r, t, hr, -⟩ := hy.of_quote
    · simp
    · cases hr
  case char hq _ _ ih =>
    obtain ⟨t, rfl, ht⟩ := hy.of_char hq (by simp)
    obtain ⟨hn, ht⟩ := ih ht
    exact ⟨by simp [hn, Ne.symm hq], ht.imp (congrArg _) (List.mem_cons_of_mem _)⟩
  case escape e c? b s he h ih =>
    obtain ⟨t, rfl, ht⟩ := hy.of_char (by decide) (by simp)
    obtain ⟨d, e, rfl⟩ := List.exists_cons_of_ne_nil he.ne_nil
    have hq : '\'' ∉ e := he.not_mem_tail (.inl rfl)
    replace ht : Quoted '\'' (d :: (e ++ (b ++ ['\'']))) t rest := by simpa using ht
    by_cases hd : d = '\''
    case neg =>
      obtain ⟨u, rfl, hu⟩ := ht.of_char hd (by simp)
      obtain ⟨v, rfl, hv⟩ := hu.of_append hq
      obtain ⟨hn, hs⟩ := ih hv
      exact ⟨by simp [hn, hq, Ne.symm hd], hs.imp (by rintro rfl; simp) (List.mem_append_right _)⟩
    case pos =>
      subst hd
      cases he with
      | letter he =>
      cases he
      obtain ⟨rfl, -⟩ | ⟨-, r, t, hr, -, ht⟩ := ht.of_quote
      · exact ⟨by simp, .inr (by simp)⟩
      -- Two quotes in a row are possible at the end only, where the second one is missed.
      · cases h with
        | nil =>
          cases hr
          cases ht
        | char hq    => exact absurd (List.cons.inj hr).1 hq
        | escape     => cases hr

end Storyworld.Yaml
