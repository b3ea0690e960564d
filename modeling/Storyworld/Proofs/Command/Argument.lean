import Mathlib.Data.List.Infix
import Storyworld.Proofs.Command.Nesting

/-!
Argument texts: what a list of arguments can be made of so that it is split into the same arguments
again. All brackets of such a text are its own, and its commas stand inside of them.
-/

namespace Storyworld

/-! ## Blanks around a text -/

namespace Text

variable {lead s : List Char} {c : Char}

structure Trimmed (s : List Char) : Prop where
  ne_nil : s ≠ []
  first  : ∀ c, s.head? = some c → isBlank c = false
  last   : ∀ c, s.getLast? = some c → isBlank c = false

theorem trimmed_iff : Trimmed s ↔ s ≠ [] ∧ s.head?.all (!isBlank ·) ∧ s.getLast?.all (!isBlank ·) := by
  simp only [Option.all_eq_true, Bool.not_eq_true']
  exact ⟨fun h => ⟨h.ne_nil, h.first, h.last⟩, fun ⟨hn, hf, hl⟩ => ⟨hn, hf, hl⟩⟩

instance : Decidable (Trimmed s) :=
  decidable_of_iff' _ trimmed_iff

theorem dropWhile_of_head? (h : ∀ c, s.head? = some c → isBlank c = false) :
    s.dropWhile isBlank = s := by
  cases s <;> simp_all

theorem trim_append (h : Trimmed s) (hl : ∀ c ∈ lead, isBlank c) : trim (lead ++ s) = s := by
  have hs : trimStart (lead ++ s) = s := by
    rw [trimStart, List.dropWhile_append_of_pos hl, dropWhile_of_head? h.first]
  rw [trim, hs, trimEnd, dropWhile_of_head? (by simpa using h.last), List.reverse_reverse]

theorem trim_prefix_trimStart : trim s <+: trimStart s := by
  have h := List.reverse_prefix.mpr <| List.dropWhile_suffix (l := (trimStart s).reverse) isBlank
  rwa [List.reverse_reverse] at h

theorem trim_infix : trim s <:+: s :=
  trim_prefix_trimStart.isInfix.trans (List.dropWhile_suffix isBlank).isInfix

theorem length_trim_le : (trim s).length ≤ (trimStart s).length :=
  trim_prefix_trimStart.length_le

theorem length_trimStart_concat_le :
    (trimStart (s ++ [c])).length ≤ (trimStart s).length + 1 := by
  rw [trimStart, List.dropWhile_append]
  split
  · exact Nat.le_trans (List.dropWhile_sublist isBlank).length_le (by simp)
  · rw [List.length_append, trimStart]
    rfl

end Text

namespace Command

open Quoting

variable {q : Quoting} {depth : Int} {least : Int} {c : Char} {s a b cur : List Char}

/-! ## Brackets -/

def bracket (c : Char) : Int :=
  if c = '(' ∨ c = '[' ∨ c = '{' then 1 else if c = ')' ∨ c = ']' ∨ c = '}' then -1 else 0

theorem bracketDepth_eq : bracketDepth depth c = depth + bracket c := by
  unfold bracketDepth bracket
  split
  · rfl
  · split <;> omega

-- A text that closes its own quotes and brackets, and no others. Its commas stand inside `least`
-- brackets or more.
structure Balanced (least : Int) (s : List Char) : Prop extends Encloses {} 0 s where
  brackets : level {} bracket s = 0
  commas   : ∀ p, p ++ [','] <+: s → (after {} p).quote = none → least ≤ level {} bracket p

theorem balanced_iff :
    Balanced least s ↔ (after {} s).quote = none ∧ level {} paren s = 0 ∧ level {} bracket s = 0 ∧
      ∀ p ∈ s.inits, 0 ≤ level {} paren p ∧
        (p ++ [','] <+: s → (after {} p).quote = none → least ≤ level {} bracket p) := by
  simp only [List.mem_inits]
  constructor
  · intro h
    exact ⟨h.outside, h.parens, h.brackets, fun p hp => ⟨h.nested p hp, h.commas p⟩⟩
  · rintro ⟨ho, hp, hb, hn⟩
    refine ⟨⟨ho, hp, fun p h => (hn p h).1⟩, hb, fun p h => ?_⟩
    exact (hn p ((List.prefix_append p [',']).trans h)).2 h

instance : Decidable (Balanced least s) :=
  decidable_of_iff' _ balanced_iff

theorem Balanced.mono {more : Int} (h : Balanced more s) (hl : least ≤ more) : Balanced least s :=
  { h with commas := fun p hp hq => Int.le_trans hl (h.commas p hp hq) }

theorem balanced_of_plain (ho : (after {} s).quote = none)
    (h : ∀ c ∈ plain {} s, paren c = 0 ∧ bracket c = 0 ∧ c ≠ ',') : Balanced least s where
  outside  := ho
  parens   := level_eq_zero fun c hc => (h c hc).1
  nested p hp := by
    rw [level_eq_zero fun c hc => (h c (plain_subset_plain hp hc)).1]
    exact Int.le_refl 0
  brackets := level_eq_zero fun c hc => (h c hc).2.1
  commas p hp hq := by
    have hm : ',' ∈ plain {} (p ++ [',']) := by
      rw [plain_append, plain_cons, if_pos ((isPlain_iff rfl).mpr hq)]
      simp
    exact absurd rfl (h ',' (plain_subset_plain hp hm)).2.2

/-! ## Balanced texts put together -/

-- A character that a new scan could start behind.
structure Separates (c : Char) : Prop where
  quote     : isQuote c = false
  backslash : c ≠ '\\'
  parens    : paren c = 0

theorem Separates.next (h : Separates c) (hq : q.quote = none) : q.next c = {} := by
  simp [Quoting.next, hq, h.quote, h.backslash]

theorem separates_comma : Separates ',' := by
  constructor <;> decide

theorem separates_blank : Separates ' ' := by
  constructor <;> decide

theorem after_join (hc : Separates c) (ha : (after {} a).quote = none) :
    after {} (a ++ c :: b) = after {} b := by
  rw [after_append, after_cons, hc.next ha]

theorem level_join {weight : Char → Int} (hc : Separates c) (ha : (after {} a).quote = none) :
    level {} weight (a ++ c :: b) = level {} weight a + weight c + level {} weight b := by
  rw [level_append, level_cons, hc.next ha, level_singleton,
    if_pos ((isPlain_iff hc.quote).mpr ha), Int.add_assoc]

theorem after_open (hc : Separates c) : after {} (c :: b) = after {} b :=
  after_join (a := []) hc rfl

theorem level_open {weight : Char → Int} (hc : Separates c) :
    level {} weight (c :: b) = weight c + level {} weight b := by
  have h : level {} weight ([] ++ c :: b) = _ := level_join hc rfl
  simpa using h

theorem prefix_append_cons {p : List Char} (h : p <+: a ++ c :: b) :
    p <+: a ∨ ∃ t, p = a ++ c :: t ∧ t <+: b := by
  obtain h' | ⟨t, rfl⟩ := List.prefix_or_prefix_of_prefix h (List.prefix_append a (c :: b))
  · exact .inl h'
  · obtain rfl | ⟨t, rfl, ht⟩ := List.prefix_cons_iff.mp <| (List.prefix_append_right_inj a).mp h
    · exact .inl (by simp)
    · exact .inr ⟨t, rfl, ht⟩

theorem concat_prefix_append_cons {p : List Char} {d : Char} (h : p ++ [d] <+: a ++ c :: b) :
    p ++ [d] <+: a ∨ (p = a ∧ d = c) ∨ ∃ t, p = a ++ c :: t ∧ t ++ [d] <+: b := by
  obtain h | ⟨t, he, ht⟩ := prefix_append_cons h
  · exact .inl h
  · obtain rfl | ⟨t, x, rfl⟩ := t.eq_nil_or_concat
    · exact .inr <| .inl <| by simpa using List.append_inj' he rfl
    · rw [List.concat_eq_append, ← List.cons_append, ← List.append_assoc] at he
      obtain ⟨rfl, hd⟩ := List.append_inj' he rfl
      cases hd
      exact .inr <| .inr ⟨t, rfl, by simpa using ht⟩

theorem encloses_join (hc : Separates c) (ha : Encloses {} 0 a) :
    Encloses {} 0 (a ++ c :: b) ↔ Encloses {} 0 b := by
  have hl (t : List Char) : level {} paren (a ++ c :: t) = level {} paren t := by
    rw [level_join hc ha.outside, ha.parens, hc.parens]
    simp
  constructor
  · intro h
    refine ⟨after_join hc ha.outside ▸ h.outside, hl b ▸ h.parens, fun p hp => hl p ▸ h.nested _ ?_⟩
    exact (List.prefix_append_right_inj a).mpr <| List.cons_prefix_cons.mpr ⟨rfl, hp⟩
  · intro hb
    refine ⟨(after_join hc ha.outside).symm ▸ hb.outside, hl b ▸ hb.parens, fun p hp => ?_⟩
    obtain hp | ⟨t, rfl, ht⟩ := prefix_append_cons hp
    · exact ha.nested p hp
    · exact hl t ▸ hb.nested t ht

theorem Balanced.join (ha : Balanced least a) (hb : Balanced least b) (hc : Separates c)
    (hn : bracket c = 0) (hl : c = ',' → least ≤ 0) : Balanced least (a ++ c :: b) where
  toEncloses := (encloses_join hc ha.toEncloses).mpr hb.toEncloses
  brackets   := by
    rw [level_join hc ha.outside, ha.brackets, hb.brackets, hn]
    rfl
  commas p hp hq := by
    obtain hp | ⟨rfl, hd⟩ | ⟨t, rfl, ht⟩ := concat_prefix_append_cons hp
    · exact ha.commas p hp hq
    · exact ha.brackets ▸ hl hd.symm
    · rw [after_join hc ha.outside] at hq
      rw [level_join hc ha.outside, ha.brackets, hn]
      simpa using hb.commas t ht hq

theorem Balanced.bracketed {o : Char} (h : Balanced 0 s) (ho : Separates o) (hc : Separates c)
    (hb : bracket o = 1) (hb' : bracket c = -1) : Balanced 1 (o :: (s ++ [c])) where
  outside := by
    rw [after_open ho, after_join hc h.outside]
    rfl
  parens := by
    rw [level_open ho, level_join hc h.outside, h.parens, ho.parens, hc.parens]
    rfl
  nested p hp := by
    obtain rfl | ⟨t, rfl, ht⟩ := List.prefix_cons_iff.mp hp
    · simp
    · rw [level_open ho, ho.parens]
      obtain rfl | ht := List.prefix_concat_iff.mp ht
      · simp [level_join hc h.outside, h.parens, hc.parens]
      · simpa using h.nested t ht
  brackets := by
    rw [level_open ho, level_join hc h.outside, h.brackets, hb, hb']
    rfl
  commas p hp hq := by
    -- Neither bracket is a comma, so the comma stands between them.
    obtain hp | ⟨-, rfl⟩ | ⟨t, rfl, ht⟩ := concat_prefix_append_cons (a := []) hp
    · simp at hp
    · simp [bracket] at hb
    · rw [List.nil_append, after_open ho] at hq
      obtain ht | ⟨-, rfl⟩ | ⟨t, -, ht⟩ := concat_prefix_append_cons ht
      · have := h.commas t ht hq
        rw [List.nil_append, level_open ho, hb]
        omega
      · simp [bracket] at hb'
      · simp at ht

theorem balanced_intercalate {sep : List Char} {parts : List (List Char)}
    (hs : ∀ a b, Balanced 0 a → Balanced 0 b → Balanced 0 (a ++ sep ++ b))
    (h : ∀ a ∈ parts, Balanced 0 a) : Balanced 0 (sep.intercalate parts) := by
  induction parts
  case nil => exact balanced_of_plain rfl (by simp)
  case cons a parts ih =>
    have ⟨ha, hp⟩ := List.forall_mem_cons.mp h
    cases parts
    case nil          => simpa using ha
    case cons b parts =>
      rw [List.intercalate_cons_cons]
      exact hs a _ ha (ih hp)

/-! ## Splitting -/

-- No comma stands outside all brackets.
def Undivided (q : Quoting) (depth : Int) (s : List Char) : Prop :=
  ∀ p, p ++ [','] <+: s → (q.after p).quote = none → depth + q.level bracket p ≠ 0

theorem undivided_cons :
    Undivided q depth (c :: s) ↔
      (c = ',' → q.quote = none → depth ≠ 0) ∧
        Undivided (q.next c) (depth + q.level bracket [c]) s := by
  constructor
  · intro h
    refine ⟨fun hc hq => ?_, fun p hp hq => ?_⟩
    · simpa using h [] (by simp [hc]) hq
    · have := h (c :: p) (List.cons_prefix_cons.mpr ⟨rfl, hp⟩) hq
      rwa [level_cons, ← Int.add_assoc] at this
  · rintro ⟨hc, h⟩ p hp hq
    cases p
    case nil      => simpa using hc (List.cons_prefix_cons.mp hp).1.symm hq
    case cons d p =>
      obtain ⟨rfl, hs⟩ := List.cons_prefix_cons.mp hp
      rw [level_cons, ← Int.add_assoc]
      exact h p hs hq

theorem splitFrom_cons :
    splitFrom q depth cur (c :: s) =
      if c = ',' ∧ q.quote = none ∧ depth = 0 then
        .ofList (Text.trim cur) :: splitFrom (q.next c) 0 [] s
      else splitFrom (q.next c) (depth + q.level bracket [c]) (cur ++ [c]) s := by
  rw [splitFrom, level_singleton]
  by_cases hp : q.isPlain c
  case pos =>
    by_cases hc : c = ','
    case pos =>
      subst hc
      have hq := (isPlain_iff rfl).mp hp
      by_cases hd : depth = 0 <;> simp [hp, hq, hd, bracketDepth_eq]
    case neg => simp [hp, hc, bracketDepth_eq]
  case neg =>
    have hn : ¬(c = ',' ∧ q.quote = none ∧ depth = 0) := by
      rintro ⟨rfl, hq, -⟩
      exact hp <| (isPlain_iff rfl).mpr hq
    simp [hp, hn]

theorem splitFrom_append (h : Undivided q depth a) :
    splitFrom q depth cur (a ++ s) =
      splitFrom (q.after a) (depth + q.level bracket a) (cur ++ a) s := by
  induction a generalizing q depth cur
  case nil => simp
  case cons c a ih =>
    have ⟨hc, h⟩ := undivided_cons.mp h
    rw [List.cons_append, splitFrom_cons, if_neg fun ⟨hc', hq, hd⟩ => hc hc' hq hd, ih h,
      level_cons (s := a), after_cons, Int.add_assoc, List.append_assoc, List.singleton_append]

-- A text that comes out as one argument is not divided: the comma would be missing in it.
theorem undivided_of_splitFrom {r : List Char} (h : splitFrom q depth cur s = [.ofList r])
    (hr : (Text.trimStart cur).length + s.length ≤ r.length) : Undivided q depth s := by
  induction s generalizing q depth cur
  case nil          => simp [Undivided]
  case cons c s ih =>
    rw [List.length_cons] at hr
    rw [splitFrom_cons] at h
    split at h
    case isTrue =>
      have := congrArg List.length <| String.ofList_injective <| (List.cons.inj h).1
      have := Text.length_trim_le (s := cur)
      omega
    case isFalse hn =>
      have := Text.length_trimStart_concat_le (s := cur) (c := c)
      exact undivided_cons.mpr ⟨fun hc hq hd => hn ⟨hc, hq, hd⟩, ih h (by omega)⟩

/-! ## Arguments -/

structure IsArgument (s : List Char) : Prop extends Text.Trimmed s, Balanced 1 s

instance : Decidable (IsArgument s) :=
  decidable_of_iff (Text.Trimmed s ∧ Balanced 1 s)
    ⟨fun ⟨ht, hb⟩ => ⟨ht, hb⟩, fun h => ⟨h.toTrimmed, h.toBalanced⟩⟩

theorem Balanced.undivided (h : Balanced 1 s) : Undivided {} 0 s := by
  intro p hp hq
  have := h.commas p hp hq
  omega

variable {lead : List Char} {args : List (List Char)}

-- What has been read of an argument may have blanks in front.
theorem splitFrom_last (ht : Text.Trimmed s) (hu : Undivided {} 0 s) (hl : ∀ c ∈ lead, Text.isBlank c) :
    splitFrom {} 0 lead s = [.ofList s] := by
  have h : splitFrom {} 0 lead (s ++ []) = _ := splitFrom_append hu
  rw [List.append_nil] at h
  simp [h, splitFrom, Text.trim_append ht hl, ht.ne_nil]

theorem splitFrom_comma (ht : Text.Trimmed a) (ha : Balanced 1 a) (hl : ∀ c ∈ lead, Text.isBlank c) :
    splitFrom {} 0 lead (a ++ [',', ' '] ++ s) = .ofList a :: splitFrom {} 0 [' '] s := by
  have hb : splitFrom {} 0 [] ([' '] ++ s) = splitFrom {} 0 [' '] s := by
    rw [List.singleton_append, splitFrom_cons, if_neg (by simp)]
    rfl
  rw [List.append_assoc, splitFrom_append ha.undivided, ha.brackets, List.cons_append, splitFrom_cons,
    if_pos ⟨rfl, ha.outside, rfl⟩, Text.trim_append ht hl, separates_comma.next ha.outside, hb]

theorem splitFrom_join (hl : ∀ c ∈ lead, Text.isBlank c) (hne : args ≠ [])
    (h : ∀ a ∈ args, IsArgument a) :
    splitFrom {} 0 lead ([',', ' '].intercalate args) = args.map .ofList := by
  induction args generalizing lead
  case nil            => exact absurd rfl hne
  case cons a args ih =>
    have ⟨ha, hs⟩ := List.forall_mem_cons.mp h
    cases args
    case nil         =>
      simpa using splitFrom_last ha.toTrimmed ha.undivided hl
    case cons b args =>
      rw [List.intercalate_cons_cons, splitFrom_comma ha.toTrimmed ha.toBalanced hl,
        ih (by simp; rfl) (by simp) hs]
      rfl

theorem balanced_join (h : ∀ a ∈ args, IsArgument a) : Balanced 0 ([',', ' '].intercalate args) := by
  refine balanced_intercalate (fun a b ha hb => ?_) fun a ha => (h a ha).toBalanced.mono (by decide)
  have hb : Balanced 0 ([] ++ ' ' :: b) :=
    (balanced_of_plain rfl (by simp)).join hb separates_blank rfl (by simp)
  simpa using ha.join hb separates_comma rfl (by simp)

end Command

end Storyworld
