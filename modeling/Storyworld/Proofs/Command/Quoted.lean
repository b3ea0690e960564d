import Storyworld.Proofs.Formula.Words
import Storyworld.Proofs.Yaml.Root
import Storyworld.Proofs.Yaml.Shared

/-!
Strings in quotes as arguments. Inside brackets they are literals. On their own they are not, since of
literals only maps and lists count there: they are JSON, YAML or else the text between the quotes as it is
written, and what a backslash means in it depends on which of these it is.
-/

namespace Storyworld.Argument

open Literal (IsString Spells)

variable {quote c : Char} {q s text : String} {body : List Char} {dice : Dice}

/-! ## The ways to a value -/

theorem stripped_eq_self (hf : text.toList.head? = some quote) (hl : text.toList.getLast? = some c)
    (hq : Text.isBlank quote = false) (hc : Text.isBlank c = false) : Text.stripped text = text := by
  have ht : Text.Trimmed text.toList := by
    refine ⟨fun hn => ?_, fun d hd => ?_, fun d hd => ?_⟩
    · rw [hn] at hf
      cases hf
    · cases hf.symm.trans hd
      exact hq
    · cases hl.symm.trans hd
      exact hc
  have trimmed : Text.trim ([] ++ text.toList) = text.toList := Text.trim_append ht (by simp)
  rw [Text.stripped, ← List.nil_append text.toList, trimmed, String.ofList_toList]

theorem keyword?_of_head (hf : text.toList.head? = some quote) (hq : quote ∉ ['t', 'f', 'n', 'u']) :
    keyword? text = none := by
  have key : ∀ w ∈ ["true", "false", "null", "undefined"], text ≠ w := by
    rintro w hw rfl
    simp only [List.mem_cons, List.not_mem_nil, or_false] at hw
    rcases hw with rfl | rfl | rfl | rfl <;> simp at hf <;> simp [← hf] at hq
  have h₁ := key "true" (by simp)
  have h₂ := key "false" (by simp)
  have h₃ := key "null" (by simp)
  have h₄ := key "undefined" (by simp)
  simp [keyword?, h₁, h₂, h₃, h₄]

-- A formula would be the text that it is, or its quotes are none.
theorem formula?_quoted (h : IsString quote q s) : formula? q dice = (none, dice) := by
  obtain ⟨hq, body, ht, hb⟩ := h.exists_body
  unfold formula?
  by_cases hc : quote = '\x60'
  case pos =>
    subst hc
    have hn : Token.next '\x60' (body ++ ['\x60']) = .error (.unexpectedChar '\x60') := rfl
    have hp : Formula.parse q = .error (.unexpectedChar '\x60') := by
      rw [Formula.parse, ht, Token.readAll_of_error hn]
      rfl
    rw [hp]
  case neg =>
    obtain ⟨t, hr⟩ : Literal.Closes quote (body ++ [quote]) [] := hb.closes hq
    have hd : quote = '"' ∨ quote = '\'' := by
      simp only [Literal.isQuote, Bool.or_eq_true, beq_iff_eq] at hq
      exact hq.resolve_right hc
    have hn := Token.next_of_quotedBody hd hr
    have hp : Formula.parse q = .ok (.text (.ofList t)) := by
      rw [Formula.parse, ht, Token.readAll_of_next hn, Token.readAll_nil]
      rfl
    rw [hp]
    rfl

theorem container?_quoted (h : IsString quote q s) : container? q = none := by
  rw [container?, h.parse]
  rfl

theorem container?_list (h : IsString quote q s) : container? ("[" ++ q ++ "]") = some (.arr [.str s]) := by
  rw [container?, h.parse_list]
  rfl

theorem unwrapped_quoted (hq : Literal.isQuote quote) : unwrapped (quote :: (body ++ [quote])) = body := by
  have hw : isWrapper quote = true := by
    simp only [Literal.isQuote, Bool.or_eq_true, beq_iff_eq] at hq
    obtain (rfl | rfl) | rfl := hq <;> rfl
  simp [unwrapped, hw]

-- On its own a string in quotes is JSON, or else YAML, or else the text between the quotes.
theorem value_quoted (h : IsString quote q s) (hb : q.toList = quote :: (body ++ [quote])) :
    value q dice = (if (Tree.ofJson? q).isSome then .str s
      else (Yaml.parse? q.toList).getD (.str (.ofList body)), dice) := by
  have hf : q.toList.head? = some quote := by rw [hb]; rfl
  have hl : q.toList.getLast? = some quote := by rw [hb, ← List.cons_append]; exact List.getLast?_concat
  have hs := Literal.solid_of_isQuote h.1
  have hk : quote ∉ ['t', 'f', 'n', 'u'] := by
    have hq := h.1
    simp only [Literal.isQuote, Bool.or_eq_true, beq_iff_eq] at hq
    obtain (rfl | rfl) | rfl := hq <;> decide
  unfold value
  dsimp only
  rw [stripped_eq_self hf hl hs.1 hs.1, keyword?_of_head hf hk, container?_quoted h, Option.none_or, Option.or_none]
  cases hj : Tree.ofJson? q
  case some t =>
    cases h.ofJson? t hj
    rfl
  case none =>
    rw [formula?_quoted h, hb]
    simp [unwrapped_quoted h.1]

theorem value_list (h : IsString quote q s) : value ("[" ++ q ++ "]") dice = (.arr [.str s], dice) := by
  have hf : ("[" ++ q ++ "]").toList.head? = some '[' := by simp
  have hl : ("[" ++ q ++ "]").toList.getLast? = some ']' := by rw [String.toList_append]; exact List.getLast?_concat
  unfold value
  dsimp only
  rw [stripped_eq_self hf hl (by decide) (by decide), keyword?_of_head hf (by decide), container?_list h,
    Option.none_or]
  cases hj : Tree.ofJson? ("[" ++ q ++ "]")
  case none   => rfl
  case some t =>
    cases h.ofJson?_list t hj
    rfl

/-! ## When it is the string -/

-- No character in the text ends a line.
def IsLine (q : String) : Prop :=
  ∀ c ∈ q.toList, Yaml.endsLine c = false

-- YAML takes the text, and all that is written with a backslash in it means the same there.
structure IsShared (q s : String) : Prop where
  printable : q.toList.all Yaml.isPrintable
  escapes   : ∃ body, q.toList = '"' :: (body ++ ['"']) ∧ Spells Yaml.Shared '"' body s.toList

variable (dice) in
-- What a string in quotes stands for, in brackets and on its own.
structure Stands (quote : Char) (q s : String) : Prop where
  listed   : value ("[" ++ q ++ "]") dice = (.arr [.str s], dice)
  alone    : value q dice = (.str s, dice) ↔
    (Tree.ofJson? q).isSome ∨ (Yaml.parse? q.toList).elim ('\\' ∉ q.toList) (· = .str s)
  backtick : quote = '\x60' → (value q dice = (.str s, dice) ↔ '\\' ∉ q.toList)
  single   : quote = '\'' → IsLine q → (value q dice = (.str s, dice) ↔ '\\' ∉ q.toList)
  double   : quote = '"' → IsLine q →
    (value q dice = (.str s, dice) ↔ '\\' ∉ q.toList ∨ (Tree.ofJson? q).isSome ∨ IsShared q s)

theorem backslash_iff (h : IsString quote q s) (hb : q.toList = quote :: (body ++ [quote])) :
    '\\' ∉ q.toList ↔ '\\' ∉ body := by
  have hq : quote ≠ '\\' := by
    rintro rfl
    cases h.1
  simp [hb, hq.symm]

theorem value_eq_iff (h : IsString quote q s) :
    value q dice = (.str s, dice) ↔
      (Tree.ofJson? q).isSome ∨ (Yaml.parse? q.toList).elim ('\\' ∉ q.toList) (· = .str s) := by
  obtain ⟨hq, body, hb, hs⟩ := h.exists_body
  rw [value_quoted h hb, backslash_iff h hb, ← hs.eq_iff]
  cases Tree.ofJson? q
  case some => simp
  case none =>
    cases Yaml.parse? q.toList
    case some => simp
    case none =>
      simp only [Option.isSome_none, Bool.false_eq_true, if_false, Option.getD_none, Prod.mk.injEq, and_true,
        Tree.str.injEq, Option.elim_none, false_or]
      exact ⟨fun he => by rw [← he, String.toList_ofList], fun he => by rw [← he, String.ofList_toList]⟩

theorem IsLine.tail (h : IsLine q) (hb : q.toList = quote :: (body ++ [quote])) :
    ∀ c ∈ body ++ [quote], Yaml.endsLine c = false :=
  fun c hc => h c (hb ▸ List.mem_cons_of_mem _ hc)

theorem value_backtick (h : IsString '\x60' q s) : value q dice = (.str s, dice) ↔ '\\' ∉ q.toList := by
  obtain ⟨-, body, hb, -⟩ := h.exists_body
  rw [value_eq_iff h, h.ofJson?_eq_none (by decide), hb, Yaml.parse?_backtick]
  simp

theorem value_single (h : IsString '\'' q s) (hl : IsLine q) :
    value q dice = (.str s, dice) ↔ '\\' ∉ q.toList := by
  obtain ⟨-, body, hb, hs⟩ := h.exists_body
  have ht := hl.tail hb
  rw [value_eq_iff h, h.ofJson?_eq_none (by decide), backslash_iff h hb]
  simp only [Option.isSome_none, Bool.false_eq_true, false_or]
  cases hy : Yaml.parse? q.toList
  case none => rfl
  case some t =>
    rw [hb] at hy
    constructor
    · rintro rfl
      obtain ⟨-, rest, hr⟩ := Yaml.exists_of_parse?_quoted (.inl rfl) ht hy
      obtain ⟨hn, he | hm⟩ := Yaml.single_of_quoted hs hr
      · exact hs.eq_iff.mp he
      · exact absurd hm hn
    · intro hn
      have hp : ('\'' :: (body ++ ['\''])).all Yaml.isPrintable := by
        by_contra hp
        cases hy.symm.trans (Yaml.parse?_of_not_printable (by simpa using hp))
      have hq : String.ofList body = s := by rw [← hs.eq_iff.mpr hn, String.ofList_toList]
      rw [← hq]
      exact Option.some.inj (hy.symm.trans (Yaml.parse?_of_quoted (.inl rfl) ht hp (Yaml.quoted_single hs hn)))

theorem IsShared.parse? (h : IsShared q s) (hl : IsLine q) : Yaml.parse? q.toList = some (.str s) := by
  obtain ⟨body, hb, hs⟩ := h.escapes
  have hp := h.printable
  rw [hb] at hp ⊢
  have := Yaml.parse?_of_quoted (.inr rfl) (hl.tail hb) hp (Yaml.quoted_of_shared hs)
  rwa [String.ofList_toList] at this

theorem value_double (h : IsString '"' q s) (hl : IsLine q) :
    value q dice = (.str s, dice) ↔ '\\' ∉ q.toList ∨ (Tree.ofJson? q).isSome ∨ IsShared q s := by
  obtain ⟨-, body, hb, hs⟩ := h.exists_body
  have ht := hl.tail hb
  rw [value_eq_iff h]
  constructor
  · rintro (hj | hy)
    · exact .inr (.inl hj)
    · cases hp : Yaml.parse? q.toList
      case none => exact .inl (by rwa [hp] at hy)
      case some t =>
        obtain rfl : t = .str s := by rwa [hp] at hy
        rw [hb] at hp
        obtain ⟨hp, rest, hr⟩ := Yaml.exists_of_parse?_quoted (.inr rfl) ht hp
        exact .inr (.inr ⟨hb ▸ hp, body, hb, (Yaml.shared_of_quoted hs hr).2 rfl⟩)
  · rintro (hn | hj | hy)
    · cases hp : Yaml.parse? q.toList
      case none   => exact .inr hn
      case some t =>
        have hx : q.toList.all Yaml.isPrintable := by
          by_contra hx
          cases hp.symm.trans (Yaml.parse?_of_not_printable (by simpa using hx))
        have hsh : IsShared q s := ⟨hx, body, hb, hs.plain ((backslash_iff h hb).mp hn)⟩
        exact .inr (Option.some.inj (hp.symm.trans (hsh.parse? hl)))
    · exact .inl hj
    · exact .inr (by rw [hy.parse? hl]; rfl)

theorem quoted_stands (h : IsString quote q s) (dice : Dice) : Stands dice quote q s where
  listed   := value_list h
  alone    := value_eq_iff h
  backtick := by
    rintro rfl
    exact value_backtick h
  single   := by
    rintro rfl
    exact value_single h
  double   := by
    rintro rfl
    exact value_double h

theorem gate_stands :
    IsString '"' "\"north\\tgate\"" "north\tgate" ∧ Stands ⟨[], 0⟩ '"' "\"north\\tgate\"" "north\tgate" :=
  have h : IsString '"' "\"north\\tgate\"" "north\tgate" := ⟨by decide, _, rfl, by decide +kernel⟩
  ⟨h, quoted_stands h ⟨[], 0⟩⟩

-- With its apostrophe escaped the text is no string on its own, and a comment behind another one runs past
-- the bracket.
theorem apostrophe_differs :
    Literal.parse "'it\\'s'" = .ok (.str "it's") ∧ value "'it\\'s'" ⟨[], 0⟩ ≠ (.str "it's", ⟨[], 0⟩) ∧
    Literal.parse "'a' //\x07'" = .ok (.str "a") ∧
    value "['a' //\x07']" ⟨[], 0⟩ ≠ (.arr [.str "a"], ⟨[], 0⟩) := by
  have h : IsString '\'' "'it\\'s'" "it's" := ⟨by decide, _, rfl, by decide +kernel⟩
  have hl : IsLine "'it\\'s'" := by
    have hl : ("'it\\'s'".toList.all fun c => !Yaml.endsLine c) = true := by decide +kernel
    exact fun c hc => by simpa using List.all_eq_true.mp hl c hc
  refine ⟨h.parse, fun hv => (value_single h hl).mp hv (by decide +kernel), ?_, by decide +kernel⟩
  have ht : "'a' //\x07'".toList = '\'' :: "a' //\x07'".toList := rfl
  rw [Literal.parse, ht, Literal.value_isQuote rfl]
  rfl

end Storyworld.Argument
