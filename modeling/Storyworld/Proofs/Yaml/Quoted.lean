import Storyworld.Yaml.Scalar

/-!
Scalars in quotes on one line: what YAML reads in them, whether blanks are among the characters or not.
-/

namespace Storyworld.Yaml

variable {quote x d : Char} {s t text rest e hex b : List Char} {fuel n : Nat} {c c' : Cursor}

/-! ## Lines -/

-- Every character that is a line break before or after breaks have been made uniform.
def endsLine (c : Char) : Bool :=
  c == '\r' || c.toNat == 0x85 || isBreak c

theorem uniformBreaks_line (h : ∀ c ∈ s, endsLine c = false) : uniformBreaks s = s := by
  induction s
  case nil => rfl
  case cons c s ih =>
    obtain ⟨hc, hs⟩ := List.forall_mem_cons.mp h
    simp only [endsLine, Bool.or_eq_false_iff] at hc
    rw [uniformBreaks]
    · simp [hc, ih hs]
    · rintro r rfl
      exact absurd hc.1.1 (by decide)

namespace Cursor

-- The cursor has left the start of its line, which is the last one of the text.
structure OnLine (c : Cursor) : Prop where
  column : 0 < c.mark.column
  line   : ∀ x ∈ c.rest, isBreak x = false

variable {k : Nat}

theorem peek?_eq_some_iff : c.peek? = some x ↔ ∃ s, c.rest = x :: s :=
  List.head?_eq_some_iff

@[simp] theorem rest_next : c.next.rest = c.rest.tail := by
  unfold next
  split <;> simp_all

theorem OnLine.next (h : c.OnLine) : c.next.OnLine := by
  unfold Cursor.next
  split
  case h_1 => exact h
  case h_2 x s hr =>
    have hx := h.line
    rw [hr] at hx
    obtain ⟨hb, hs⟩ := List.forall_mem_cons.mp hx
    exact ⟨by simp [Mark.step, hb], hs⟩

theorem OnLine.isBreak_peek (h : c.OnLine) (hx : c.peek? = some x) : isBreak x = false := by
  obtain ⟨s, hs⟩ := peek?_eq_some_iff.mp hx
  exact h.line x (hs ▸ List.mem_cons_self)

@[simp] theorem rest_skip : (c.skip k).rest = c.rest.drop k := by
  unfold skip
  induction k
  case zero      => rfl
  case succ k ih => rw [Nat.repeat, rest_next, ih, List.tail_drop]

theorem OnLine.skip (h : c.OnLine) : (c.skip k).OnLine := by
  unfold Cursor.skip
  induction k
  case zero      => exact h
  case succ k ih => exact ih.next

end Cursor

/-! ## Escapes -/

-- What stands behind a backslash, and the character that comes of both.
inductive Escapes : List Char → Char → Prop where
  | letter {d x : Char} (h : escape? d = some (.char x)) : Escapes [d] x
  | code {d x : Char} {n : Nat} {hex : List Char} (h : escape? d = some (.code n)) (hl : hex.length = n)
    (hc : charOfCode? hex = some x) : Escapes (d :: hex) x

theorem readEscape_eq_some : readEscape c = some (x, c') ↔
    ∃ e rest, c.rest.tail = e ++ rest ∧ Escapes e x ∧ c' = c.skip (1 + e.length) := by
  have tail : (c.skip 2).rest = c.rest.tail.tail := by
    rw [Cursor.rest_skip, ← List.tail_drop, List.drop_one]
  unfold readEscape Cursor.peek?
  rw [Cursor.rest_next]
  constructor
  case mp =>
    intro h
    obtain ⟨d, hd, h⟩ := Option.bind_eq_some_iff.mp h
    obtain ⟨rest, hr⟩ := List.head?_eq_some_iff.mp hd
    obtain ⟨step, hs, h⟩ := Option.bind_eq_some_iff.mp h
    cases step with
    | char x =>
      cases h
      exact ⟨[d], rest, hr, .letter hs, rfl⟩
    | code count =>
      rw [tail, hr, List.tail_cons] at h
      dsimp only at h
      split at h
      case isTrue => cases h
      case isFalse hl =>
        obtain ⟨x, hx, h⟩ := Option.bind_eq_some_iff.mp h
        cases h
        have hk : (rest.take count).length = count := by
          simp only [List.length_take] at hl ⊢
          omega
        refine ⟨d :: rest.take count, rest.drop count, ?_, .code hs hk hx, ?_⟩
        · rw [hr, List.cons_append, List.take_append_drop]
        · rw [List.length_cons, hk, Nat.add_comm count 1, ← Nat.add_assoc]
  case mpr =>
    rintro ⟨e, rest, hr, he, rfl⟩
    rw [tail, hr]
    cases he with
    | letter h => simp [h]
    | @code d x n hex h hl hc =>
      have ha : 1 + (hex.length + 1) = 2 + hex.length := by omega
      simp [h, ← hl, hc, ha]

/-! ## Scalars -/

-- What stands behind an opening quote on one line, the text of the scalar, and what stands behind it.
inductive Quoted (quote : Char) : List Char → List Char → List Char → Prop where
  | close {rest : List Char} (h : quote = '\'' → rest.head? ≠ some '\'') : Quoted quote (quote :: rest) [] rest
  | twice {s text rest : List Char} (hq : quote = '\'') (h : Quoted quote s text rest) :
    Quoted quote (quote :: quote :: s) (quote :: text) rest
  | escape {e s text rest : List Char} {x : Char} (hq : quote = '"') (he : Escapes e x)
    (h : Quoted quote s text rest) : Quoted quote ('\\' :: (e ++ s)) (x :: text) rest
  | char {s text rest : List Char} {x : Char} (hx : x ≠ quote) (hb : ¬(quote = '"' ∧ x = '\\'))
    (h : Quoted quote s text rest) : Quoted quote (x :: s) (x :: text) rest

theorem Quoted.of_char (h : Quoted quote (x :: s) text rest) (hq : x ≠ quote) (hb : ¬(quote = '"' ∧ x = '\\')) :
    ∃ t, text = x :: t ∧ Quoted quote s t rest := by
  cases h with
  | close        => exact absurd rfl hq
  | twice        => exact absurd rfl hq
  | escape hd    => exact absurd ⟨hd, rfl⟩ hb
  | char _ _ h   => exact ⟨_, rfl, h⟩

theorem Quoted.of_append (h : Quoted '\'' (b ++ s) text rest) (hb : '\'' ∉ b) :
    ∃ t, text = b ++ t ∧ Quoted '\'' s t rest := by
  induction b generalizing text
  case nil => exact ⟨text, rfl, h⟩
  case cons c b ih =>
    simp only [List.mem_cons, not_or] at hb
    obtain ⟨t, rfl, ht⟩ := h.of_char (Ne.symm hb.1) (by simp)
    obtain ⟨u, rfl, hu⟩ := ih ht hb.2
    exact ⟨u, rfl, hu⟩

theorem Quoted.of_quote (h : Quoted quote (quote :: s) text rest) :
    text = [] ∧ rest = s ∨ quote = '\'' ∧ ∃ r t, s = quote :: r ∧ text = quote :: t ∧ Quoted quote r t rest := by
  cases h with
  | close        => exact .inl ⟨rfl, rfl⟩
  | twice hq h   => exact .inr ⟨hq, _, _, rfl, rfl, h⟩
  | escape hq    => cases hq
  | char hx      => exact absurd rfl hx

theorem Quoted.of_backslash (h : Quoted '"' ('\\' :: s) text rest) :
    ∃ e r x t, s = e ++ r ∧ Escapes e x ∧ text = x :: t ∧ Quoted '"' r t rest := by
  generalize hb : '\\' :: s = b at h
  cases h with
  | close | twice  => cases hb
  | escape _ he h  => exact ⟨_, _, _, _, (List.cons.inj hb).2, he, rfl, h⟩
  | char _ hn      => exact absurd ⟨rfl, (List.cons.inj hb).1.symm⟩ hn

theorem ne_of_isBlank (hb : isBlank x) (hq : quote = '\'' ∨ quote = '"') : x ≠ quote ∧ x ≠ '\\' := by
  constructor <;> rintro rfl
  · obtain rfl | rfl := hq <;> cases hb
  · cases hb

theorem quotedWord_blank (hq : quote = '\'' ∨ quote = '"') (hc : c.peek? = some x) (hb : isBlank x) :
    quotedWord quote (fuel + 1) c = quotedGap quote fuel {} c := by
  rw [quotedWord.eq_def]
  simp [hc, ne_of_isBlank hb hq, isGap, hb]

theorem quotedGap_blank (hc : c.peek? = some x) (hb : isBlank x) :
    quotedGap quote (fuel + 1) { blanks := b } c = quotedGap quote fuel { blanks := b ++ [x] } c.next := by
  rw [quotedGap.eq_def]
  simp [hc, hb, Gap.blank]

theorem quotedGap_solid (ho : c.OnLine) (hc : c.peek? = some x) (hb : isBlank x = false) :
    quotedGap quote (fuel + 1) { blanks := b } c =
      (quotedWord quote fuel c).map fun r => (b ++ r.1, r.2) := by
  have hd : atDocumentMark c.mark c.rest = false := by
    have := ho.column
    simp only [atDocumentMark, Bool.and_eq_false_iff, beq_eq_false_iff_ne]
    omega
  rw [quotedGap.eq_def]
  dsimp only
  rw [hc, hd]
  simp only [Option.bind_eq_bind, Option.bind_some, hb, ho.isBreak_peek hc, Bool.false_eq_true, if_false]
  cases quotedWord quote fuel c <;> rfl

theorem quotedWord_solid (ho : c.OnLine) (hc : c.peek? = some x) (hb : isBlank x = false) :
    quotedWord quote (fuel + 1) c =
      if x = quote then
        if quote = '\'' ∧ c.next.peek? = some '\'' then
          (quotedWord quote fuel (c.skip 2)).map fun r => ('\'' :: r.1, r.2)
        else some ([], c.next)
      else if quote = '"' ∧ x = '\\' then
        (readEscape c).bind fun r => (quotedWord quote fuel r.2).map fun t => (r.1 :: t.1, t.2)
      else (quotedWord quote fuel c.next).map fun r => (x :: r.1, r.2) := by
  have hn : ¬c.next.peek?.any isBreak := by
    cases hp : c.next.peek?
    case none   => simp
    case some y => simp [ho.next.isBreak_peek hp]
  rw [quotedWord.eq_def]
  dsimp only
  rw [hc, if_neg hn]
  simp only [Option.bind_eq_bind, Option.bind_some, isGap, hb, ho.isBreak_peek hc, Bool.or_self,
    Bool.false_eq_true, if_false, Option.map_eq_bind]
  rfl

-- One step on a character that is no blank, if what is read behind it is a scalar.
theorem quoted_of_solid (ho : c.OnLine) (hs : c.rest = x :: s) (hb : isBlank x = false)
    (word : ∀ {c : Cursor} {text}, c.OnLine → quotedWord quote fuel c = some (text, c') →
      Quoted quote c.rest text c'.rest)
    (h : quotedWord quote (fuel + 1) c = some (text, c')) : Quoted quote (x :: s) text c'.rest := by
  have hx : c.peek? = some x := Cursor.peek?_eq_some_iff.mpr ⟨s, hs⟩
  have hn : c.next.rest = s := by rw [Cursor.rest_next, hs]; rfl
  rw [quotedWord_solid ho hx hb, Cursor.peek?, hn] at h
  split at h
  case isTrue he =>
    subst he
    split at h
    case isTrue ht =>
      obtain ⟨⟨text', after⟩, hr, h⟩ := Option.map_eq_some_iff.mp h
      cases h
      obtain ⟨rfl, ht⟩ := ht
      obtain ⟨s', rfl⟩ := List.head?_eq_some_iff.mp ht
      have hm := word ho.skip hr
      rw [Cursor.rest_skip, hs] at hm
      exact .twice rfl hm
    case isFalse ht =>
      cases h
      rw [hn]
      exact .close fun hq hh => ht ⟨hq, hh⟩
  case isFalse hd =>
    split at h
    case isTrue hb =>
      obtain ⟨rfl, rfl⟩ := hb
      obtain ⟨⟨y, c''⟩, he, h⟩ := Option.bind_eq_some_iff.mp h
      obtain ⟨⟨text', after⟩, hr, h⟩ := Option.map_eq_some_iff.mp h
      cases h
      obtain ⟨e, rest, ht, he', rfl⟩ := readEscape_eq_some.mp he
      have hm := word ho.skip hr
      rw [hs, List.tail_cons] at ht
      subst ht
      rw [Cursor.rest_skip, hs, Nat.add_comm, List.drop_succ_cons, List.drop_left] at hm
      exact .escape rfl he' hm
    case isFalse hb =>
      obtain ⟨⟨text', after⟩, hr, h⟩ := Option.map_eq_some_iff.mp h
      cases h
      exact .char hd hb (hn ▸ word ho.next hr)

theorem quotedWord_end (hc : c.peek? = none) : quotedWord quote fuel c = none := by
  cases fuel
  case zero => rfl
  case succ =>
    rw [quotedWord.eq_def]
    dsimp only
    rw [hc]
    rfl

theorem quotedGap_end {g : Gap} (hc : c.peek? = none) : quotedGap quote fuel g c = none := by
  cases fuel
  case zero => rfl
  case succ =>
    rw [quotedGap.eq_def]
    dsimp only
    rw [hc]
    rfl

-- Blanks are read ahead, and kept as they are.
theorem quoted_of_word (hq : quote = '\'' ∨ quote = '"') (ho : c.OnLine) :
    (quotedWord quote fuel c = some (text, c') → Quoted quote c.rest text c'.rest) ∧
    (quotedGap quote fuel { blanks := b } c = some (text, c') →
      ∃ more, text = b ++ more ∧ Quoted quote c.rest more c'.rest) := by
  induction fuel generalizing c b text
  case zero => constructor <;> intro h <;> cases h
  case succ fuel ih =>
  cases hx : c.peek?
  case none => simp [quotedWord_end hx, quotedGap_end hx]
  case some x =>
  obtain ⟨s, hs⟩ := Cursor.peek?_eq_some_iff.mp hx
  have word {c : Cursor} {text : List Char} (ho : c.OnLine) (h : quotedWord quote fuel c = some (text, c')) :
      Quoted quote c.rest text c'.rest := (ih (b := []) ho).1 h
  cases hb : isBlank x
  case true =>
    have hd := ne_of_isBlank hb hq
    have hn : c.next.rest = s := by rw [Cursor.rest_next, hs]; rfl
    rw [quotedWord_blank hq hx hb, quotedGap_blank hx hb]
    constructor <;> intro h
    · obtain ⟨more, rfl, hm⟩ := (ih (b := []) ho).2 h
      exact hm
    · obtain ⟨more, rfl, hm⟩ := (ih (b := b ++ [x]) ho.next).2 h
      exact ⟨x :: more, by simp, hs ▸ .char hd.1 (fun h => hd.2 h.2) (hn ▸ hm)⟩
  case false =>
    constructor <;> intro h
    · exact hs ▸ quoted_of_solid ho hs hb word h
    · rw [quotedGap_solid ho hx hb] at h
      obtain ⟨⟨more, c''⟩, hw, h⟩ := Option.map_eq_some_iff.mp h
      cases h
      exact ⟨more, rfl, word ho hw⟩

-- With that much fuel the text is read at the cursor, and behind blanks as well.
structure Reads (quote : Char) (fuel : Nat) (c : Cursor) (text rest : List Char) : Prop where
  word : ∃ c', quotedWord quote fuel c = some (text, c') ∧ c'.rest = rest
  gap  : ∀ b, ∃ c', quotedGap quote fuel { blanks := b } c = some (b ++ text, c') ∧ c'.rest = rest

-- A gap takes one step more before what is no blank.
theorem reads_of_solid (ho : c.OnLine) (hx : c.peek? = some x) (hb : isBlank x = false)
    (h : ∀ fuel, n < fuel → ∃ c', quotedWord quote (fuel + 1) c = some (text, c') ∧ c'.rest = rest)
    (hf : n + 2 < fuel) : Reads quote fuel c text rest := by
  obtain ⟨k, rfl⟩ := Nat.exists_eq_add_of_lt hf
  refine ⟨h _ (by omega), fun b => ?_⟩
  obtain ⟨c', hc, hr⟩ := h (n + k + 1) (by omega)
  have hk : n + 2 + k + 1 = n + k + 1 + 1 + 1 := by omega
  exact ⟨c', by rw [hk, quotedGap_solid ho hx hb, hc]; rfl, hr⟩

-- And a word takes one step more before a blank.
theorem reads_of_blank (hq : quote = '\'' ∨ quote = '"') (hx : c.peek? = some x) (hb : isBlank x)
    (h : ∀ fuel, n < fuel → Reads quote fuel c.next text rest) (hf : n + 2 < fuel) :
    Reads quote fuel c (x :: text) rest := by
  obtain ⟨k, rfl⟩ := Nat.exists_eq_add_of_lt hf
  have gap (fuel : Nat) (hf : n < fuel) (b : List Char) :
      ∃ c', quotedGap quote (fuel + 1) { blanks := b } c = some (b ++ x :: text, c') ∧ c'.rest = rest := by
    obtain ⟨c', hg, hr⟩ := (h fuel hf).gap (b ++ [x])
    exact ⟨c', by rw [quotedGap_blank hx hb, hg]; simp, hr⟩
  refine ⟨?_, gap _ (by omega)⟩
  have hk : n + 2 + k = n + 1 + k + 1 := by omega
  rw [quotedWord_blank hq hx hb, hk]
  exact gap (n + 1 + k) (by omega) []

theorem Quoted.reads (h : Quoted quote s text rest) (hq : quote = '\'' ∨ quote = '"') (ho : c.OnLine)
    (hc : c.rest = s) (hf : 2 * s.length < fuel) : Reads quote fuel c text rest := by
  have hd : isBlank quote = false := by obtain rfl | rfl := hq <;> rfl
  induction h generalizing c fuel
  case close rest h =>
    have hx : c.peek? = some quote := Cursor.peek?_eq_some_iff.mpr ⟨rest, hc⟩
    have hn : ¬(quote = '\'' ∧ c.next.peek? = some '\'') := by
      rw [Cursor.peek?, Cursor.rest_next, hc]
      exact fun ⟨hq, hh⟩ => h hq hh
    refine reads_of_solid ho hx hd (fun fuel _ => ⟨c.next, ?_, by rw [Cursor.rest_next, hc]; rfl⟩) hf
    rw [quotedWord_solid ho hx hd, if_pos rfl, if_neg hn]
  case twice s text rest he _ ih =>
    have hx : c.peek? = some quote := Cursor.peek?_eq_some_iff.mpr ⟨_, hc⟩
    have hn : c.next.peek? = some '\'' := by rw [Cursor.peek?, Cursor.rest_next, hc, he]; rfl
    have hs : (c.skip 2).rest = s := by rw [Cursor.rest_skip, hc]; rfl
    refine reads_of_solid (n := 2 * s.length) ho hx hd (fun fuel hl => ?_) (by simp at hf; omega)
    obtain ⟨c', hw, hr⟩ := (ih ho.skip hs hl).word
    refine ⟨c', ?_, hr⟩
    rw [quotedWord_solid ho hx hd, if_pos rfl, if_pos ⟨he, hn⟩, hw, he]
    rfl
  case escape e s text rest y he hy _ ih =>
    subst he
    have hx : c.peek? = some '\\' := Cursor.peek?_eq_some_iff.mpr ⟨_, hc⟩
    have hs : (c.skip (1 + e.length)).rest = s := by
      rw [Cursor.rest_skip, hc, Nat.add_comm, List.drop_succ_cons, List.drop_left]
    have hy : readEscape c = some (y, c.skip (1 + e.length)) :=
      readEscape_eq_some.mpr ⟨e, s, by rw [hc]; rfl, hy, rfl⟩
    refine reads_of_solid (n := 2 * s.length) ho hx rfl (fun fuel hl => ?_) (by simp at hf; omega)
    obtain ⟨c', hw, hr⟩ := (ih ho.skip hs hl).word
    refine ⟨c', ?_, hr⟩
    rw [quotedWord_solid ho hx rfl, if_neg (by decide), if_pos ⟨rfl, rfl⟩, hy, Option.bind_some, hw]
    rfl
  case char s text rest y hy hn _ ih =>
    have hx : c.peek? = some y := Cursor.peek?_eq_some_iff.mpr ⟨_, hc⟩
    have hs : c.next.rest = s := by rw [Cursor.rest_next, hc]; rfl
    cases hb : isBlank y
    case true => exact reads_of_blank hq hx hb (fun fuel hl => ih ho.next hs hl) hf
    case false =>
      refine reads_of_solid ho hx hb (fun fuel hl => ?_) hf
      obtain ⟨c', hw, hr⟩ := (ih ho.next hs hl).word
      refine ⟨c', ?_, hr⟩
      rw [quotedWord_solid ho hx hb, if_neg hy, if_neg hn, hw]
      rfl

-- On one line, the reader takes exactly the scalars in quotes off a text.
theorem quotedScalar_iff (hq : quote = '\'' ∨ quote = '"') (hs : ∀ x ∈ s, isBreak x = false) :
    (∃ c, quotedScalar quote ⟨{}, quote :: s⟩ = some (text, c) ∧ c.rest = rest) ↔
      Quoted quote s text rest := by
  have ho : (Cursor.next ⟨{}, quote :: s⟩).OnLine := by
    obtain rfl | rfl := hq <;> exact ⟨Nat.zero_lt_one, hs⟩
  unfold quotedScalar
  constructor
  · rintro ⟨c, hc, rfl⟩
    exact (quoted_of_word (b := []) hq ho).1 hc
  · intro h
    exact (h.reads hq ho rfl (by simp; omega)).word

end Storyworld.Yaml
