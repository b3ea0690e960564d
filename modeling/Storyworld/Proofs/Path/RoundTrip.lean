import Storyworld.Path.Parser
import Storyworld.Path.Printer
import Storyworld.Proofs.Command.Argument
import Storyworld.Proofs.Decimal.Bare
import Storyworld.Proofs.Decimal.Numeral
import Storyworld.Proofs.Yields

/-!
Paths written out and parsed again. A path comes back if its text shows every character of its names
as itself and has no blank at an end. Otherwise it does not: what a parse puts into names are characters
of the text, and the text of such a path has too few of them.
-/

namespace Storyworld

namespace Text

variable {c : Char} {n : Nat} {s : List Char} {p : Char → Bool}

-- The visible characters of ASCII, of which escapes and the syntax of paths are made.
def isMark (c : Char) : Bool :=
  32 < c.toNat && c.toNat < 127

theorem isMark_digitChar (h : n < 16) : isMark n.digitChar := by
  revert h n
  decide

theorem isMark_of_mem_toDigits (h : c ∈ Nat.toDigits 16 n) : isMark c := by
  induction n using Nat.strongRecOn
  case ind n ih =>
    by_cases hn : n < 16
    case pos =>
      rw [Nat.toDigits_of_lt_base hn, List.mem_singleton] at h
      exact h ▸ isMark_digitChar hn
    case neg =>
      rw [Nat.toDigits_of_base_le (by decide) (Nat.le_of_not_lt hn), List.mem_append,
        List.mem_singleton] at h
      cases h
      case inl h => exact ih (n / 16) (by omega) h
      case inr h => exact h ▸ isMark_digitChar (by omega)

theorem isMark_of_isDigit (h : c.isDigit) : isMark c := by
  simp only [Char.isDigit, Bool.and_eq_true, decide_eq_true_eq] at h
  have h₁ : 48 ≤ c.toNat := UInt32.le_iff_toNat_le.mp h.1
  have h₂ : c.toNat ≤ 57 := UInt32.le_iff_toNat_le.mp h.2
  simp only [isMark, Bool.and_eq_true, decide_eq_true_eq]
  omega

theorem isVisible_of_isMark (h : isMark c) : isVisible c := by
  simp only [isMark, Bool.and_eq_true, decide_eq_true_eq] at h
  have : c.toNat < 128 := by omega
  simp only [isVisible, this, if_true, Bool.and_eq_true, decide_eq_true_eq]
  omega

theorem isMark_of_isVisible (h : isVisible c = false) : isMark c = false := by
  cases hc : isMark c
  case false => rfl
  case true  => simp [isVisible_of_isMark hc] at h

theorem isMark_of_isBlank (h : isBlank c) : isMark c = false := by
  simp only [isBlank, Bool.or_eq_true, Bool.and_eq_true, decide_eq_true_eq, beq_iff_eq] at h
  simp only [isMark, Bool.and_eq_false_iff, decide_eq_false_iff_not]
  omega

-- What is visible is shown as itself, if need be behind a backslash. Anything else is spelled out.
theorem quoteChar_cases (c : Char) :
    (isVisible c ∧ (quoteChar c = [c] ∧ c ≠ '"' ∧ c ≠ '\\' ∨ quoteChar c = ['\\', c])) ∨
      (isVisible c = false ∧ (quoteChar c).all isMark) := by
  fun_cases quoteChar c
  case case1 h =>
    rw [beq_iff_eq.mp h]
    exact .inl ⟨by decide, .inr rfl⟩
  case case2 h =>
    rw [beq_iff_eq.mp h]
    exact .inl ⟨by decide, .inr rfl⟩
  case case3 h => exact .inr ⟨by rw [beq_iff_eq.mp h]; decide, by decide⟩
  case case4 h => exact .inr ⟨by rw [beq_iff_eq.mp h]; decide, by decide⟩
  case case5 h => exact .inr ⟨by rw [beq_iff_eq.mp h]; decide, by decide⟩
  case case6 h => exact .inr ⟨by simp [isVisible, beq_iff_eq.mp h], by decide⟩
  case case7 hq hb _ _ _ _ h => exact .inl ⟨h, .inl ⟨rfl, by simpa using hq, by simpa using hb⟩⟩
  case case8 h =>
    have hd : (Nat.toDigits 16 c.toNat).all isMark := List.all_eq_true.mpr fun _ => isMark_of_mem_toDigits
    refine .inr ⟨by simpa using h, ?_⟩
    simp only [List.all_append, hd]
    decide

theorem eq_false_of_isMark (hp : ∀ c, p c → isMark c = false) (h : isMark c) : p c = false := by
  cases hc : p c
  case false => rfl
  case true  => simp [hp c hc] at h

-- Of the characters that no syntax is made of, a quoted text has those of the text at most.
theorem countP_quoteChars (hp : ∀ c, p c → isMark c = false) :
    (s.flatMap quoteChar).countP p ≤ s.countP p := by
  have hn (c : Char) := eq_false_of_isMark (c := c) hp
  induction s
  case nil => exact Nat.le_refl _
  case cons c s ih =>
    have hc : (quoteChar c).countP p ≤ [c].countP p := by
      obtain ⟨_, ⟨hq, _⟩ | hq⟩ | ⟨_, hq⟩ := quoteChar_cases c
      · exact Nat.le_of_eq (by rw [hq])
      · rw [hq, List.countP_cons_of_neg (by simp [hn '\\' rfl])]
      · have : (quoteChar c).countP p = 0 := by
          rw [List.countP_eq_zero]
          exact fun x hx => by simp [hn x (List.all_eq_true.mp hq x hx)]
        omega
    rw [List.flatMap_cons, List.countP_append, ← List.singleton_append, List.countP_append]
    exact Nat.add_le_add hc ih

-- A character that has to be spelled out is not in the quoted text.
theorem not_mem_quoteChars (hc : isVisible c = false) : c ∉ s.flatMap quoteChar := by
  intro hm
  obtain ⟨x, _, hx⟩ := List.mem_flatMap.mp hm
  have hb : isVisible '\\' = true := by decide
  obtain ⟨hv, ⟨hq, _⟩ | hq⟩ | ⟨_, hq⟩ := quoteChar_cases x
  · rw [hq, List.mem_singleton] at hx
    simp [hx, hv] at hc
  · rw [hq] at hx
    simp only [List.mem_cons, List.not_mem_nil, or_false] at hx
    obtain rfl | rfl := hx <;> simp_all
  · simp [isVisible_of_isMark (List.all_eq_true.mp hq c hx)] at hc

/-! ## Blanks at the ends -/

theorem countP_dropWhile_isBlank :
    (s.dropWhile isBlank).countP (!isBlank ·) = s.countP (!isBlank ·) := by
  induction s
  case nil => rfl
  case cons c s ih => cases hc : isBlank c <;> simp [hc, ih]

theorem countP_trim : (trim s).countP (!isBlank ·) = s.countP (!isBlank ·) := by
  rw [trim, trimEnd, List.countP_reverse, countP_dropWhile_isBlank, List.countP_reverse, trimStart,
    countP_dropWhile_isBlank]

-- Only blanks are taken off.
theorem trim_of_countP (h : s.countP isBlank ≤ (trim s).countP isBlank) : trim s = s := by
  refine trim_infix.sublist.eq_of_length_le ?_
  have h₁ := List.length_eq_countP_add_countP isBlank (l := s)
  have h₂ := List.length_eq_countP_add_countP isBlank (l := trim s)
  have h₃ := countP_trim (s := s)
  simp only [Bool.not_eq_true, Bool.decide_eq_false] at h₁ h₂
  omega

theorem trim_eq_iff (hs : s ≠ []) : trim s = s ↔ Trimmed s := by
  constructor
  case mpr => exact fun h => trim_append (s := s) h (List.forall_mem_nil _)
  case mp =>
    intro h
    have hd (c : Char) (r : List Char) (hc : (r.dropWhile isBlank).head? = some c) : isBlank c = false := by
      have := List.head?_dropWhile_not isBlank r
      simpa [hc] using this
    -- If nothing has been taken off in all, nothing has been taken off in front.
    have hl := (length_trim_le (s := s)).trans' (Nat.le_of_eq (congrArg List.length h.symm))
    have hf : trimStart s = s := (List.dropWhile_sublist isBlank).eq_of_length_le hl
    refine ⟨hs, fun c hc => hd c s ?_, fun c hc => hd c (trimStart s).reverse ?_⟩
    · exact (congrArg List.head? hf).trans hc
    · rw [← h, trim, trimEnd] at hc
      simpa using hc

end Text

namespace Segment

-- The characters of a name; a position has none.
def letters : Segment → List Char
  | key k => k.toList
  | index _ => []

-- The name that is written as it is, without brackets.
def bareName? : Segment → Option (List Char)
  | key k => if Path.needsQuotes k then none else some k.toList
  | index _ => none

-- Shown with all its characters if it is a name, and within bounds if it is a position.
def Legible : Segment → Prop
  | key k => Path.needsQuotes k → ∀ c ∈ k.toList, Text.isVisible c
  | index n => n < wordBound

end Segment

namespace Path

variable {path path' : Path} {step : Segment} {name raw s s' : List Char} {quote : Char} {n : Nat}

def letters (path : Path) : List Char :=
  path.flatMap Segment.letters

/-! ## What a parse makes of a text -/

-- The names are made of characters of the text, in their order, and the positions are within bounds.
structure DrawnFrom (s : List Char) (path : Path) : Prop where
  names     : path.letters.Sublist s
  positions : ∀ n, .index n ∈ path → n < wordBound

theorem drawnFrom_nil : DrawnFrom s [] where
  names     := List.nil_sublist s
  positions := nofun

theorem DrawnFrom.mono (h : DrawnFrom s path) (hs : s.Sublist s') : DrawnFrom s' path :=
  { h with names := h.names.trans hs }

theorem DrawnFrom.append (h : DrawnFrom s path) (h' : DrawnFrom s' path') :
    DrawnFrom (s ++ s') (path ++ path') where
  names := by
    rw [letters, List.flatMap_append]
    exact h.names.append h'.names
  positions n hn := (List.mem_append.mp hn).elim (h.positions n) (h'.positions n)

theorem drawnFrom_name : DrawnFrom name [.key (.ofList name)] where
  names     := by simp [letters, Segment.letters]
  positions := by simp

theorem drawnFrom_named : DrawnFrom name (named name) := by
  unfold named
  split
  · exact drawnFrom_nil
  · exact drawnFrom_name

theorem drawnFrom_bracketed (h : bracketed? raw = some step) : DrawnFrom raw [step] := by
  unfold bracketed? at h
  dsimp only at h
  split at h
  · cases h
  split at h
  case h_1 n hn =>
    cases h
    refine ⟨List.nil_sublist raw, fun m hm => ?_⟩
    cases List.mem_singleton.mp hm
    simpa using (Option.filter_eq_some_iff.mp hn).2
  case h_2 =>
    cases h
    exact drawnFrom_name.mono Text.trim_infix.sublist

mutual

theorem yields_bare (name s : List Char) : Yields (DrawnFrom (name ++ s)) (bare name s) := by
  cases s
  case nil =>
    rw [bare]
    split
    · exact yields_error
    · exact yields_ok (by simpa using drawnFrom_named)
  case cons c s =>
    rw [bare]
    split
    · split
      · exact yields_error
      · exact (yields_bare [] s).map fun p hp => drawnFrom_named.append (hp.mono (List.sublist_cons_self c s))
    split
    · exact (yields_opened s).map fun p hp => drawnFrom_named.append (hp.mono (List.sublist_cons_self c s))
    split
    · exact yields_error
    · simpa using yields_bare (name ++ [c]) s
termination_by structural s

theorem yields_opened (s : List Char) : Yields (DrawnFrom s) (opened s) := by
  cases s
  case nil => exact yields_error
  case cons c s =>
    rw [opened]
    split
    · exact (yields_quoted c [] s).mono fun p hp => hp.mono (List.sublist_cons_self c s)
    split
    · exact yields_error
    · exact yields_unquoted [c] s
termination_by structural s

theorem yields_unquoted (raw s : List Char) : Yields (DrawnFrom (raw ++ s)) (unquoted raw s) := by
  cases s
  case nil =>
    rw [unquoted]
    split <;> exact yields_error
  case cons c s =>
    rw [unquoted]
    split
    · split
      case h_1 => exact yields_error
      case h_2 step hs =>
        exact (yields_closed s).map fun p hp =>
          (drawnFrom_bracketed hs).append (hp.mono (List.sublist_cons_self c s))
    · simpa using yields_unquoted (raw ++ [c]) s
termination_by structural s

theorem yields_quoted (quote : Char) (name s : List Char) :
    Yields (DrawnFrom (name ++ s)) (quoted quote name s) := by
  match s with
  | [] => exact yields_error
  | c :: s =>
    rw [quoted.eq_def]
    dsimp only
    split
    · exact (yields_closing drawnFrom_name s).mono fun p hp => hp.mono (by simp)
    split
    · match s with
      | [] => exact yields_error
      | d :: s =>
        exact (yields_quoted quote (name ++ [d]) s).mono fun p hp => hp.mono (by simp)
    · simpa using yields_quoted quote (name ++ [c]) s
termination_by structural s

theorem yields_closing {step : Segment} {name : List Char} (hs : DrawnFrom name [step])
    (s : List Char) :
    Yields (DrawnFrom (name ++ s)) (closing step s) := by
  cases s
  case nil => exact yields_error
  case cons c s =>
    rw [closing]
    split
    · exact (yields_closed s).map fun p hp => hs.append (hp.mono (List.sublist_cons_self c s))
    · exact yields_error
termination_by structural s

theorem yields_closed (s : List Char) : Yields (DrawnFrom s) (closed s) := by
  cases s
  case nil => exact yields_ok drawnFrom_nil
  case cons c s =>
    rw [closed]
    split
    · exact (yields_bare [] s).mono fun p hp => hp.mono (List.sublist_cons_self c s)
    split
    · exact (yields_opened s).mono fun p hp => hp.mono (List.sublist_cons_self c s)
    split <;> exact yields_error
termination_by structural s

end

/-! ## Reading what is written -/

theorem bare_append (h : ∀ c ∈ s, c ≠ '.' ∧ c ≠ '[' ∧ c ≠ ']') :
    bare name (s ++ rest) = bare (name ++ s) rest := by
  induction s generalizing name
  case nil => simp
  case cons c s ih =>
    have ⟨⟨hd, ho, hc⟩, hs⟩ := List.forall_mem_cons.mp h
    rw [List.cons_append, bare, if_neg hd, if_neg ho, if_neg hc, ih hs]
    simp

theorem unquoted_append (h : ']' ∉ s) (hs : bracketed? (raw ++ s) = some step) :
    unquoted raw (s ++ ']' :: rest) = (step :: ·) <$> closed rest := by
  induction s generalizing raw
  case nil =>
    rw [List.append_nil] at hs
    simp [unquoted, hs]
  case cons c s ih =>
    have ⟨hc, hs'⟩ := List.ne_and_not_mem_of_not_mem_cons h
    rw [List.cons_append, unquoted, if_neg (Ne.symm hc)]
    exact ih hs' (by simpa using hs)

-- Each character is read as itself.
theorem quoted_append (h : ∀ c ∈ s, Text.isVisible c) :
    quoted '"' name (s.flatMap Text.quoteChar ++ '"' :: rest) =
      closing (.key (.ofList (name ++ s))) rest := by
  induction s generalizing name
  case nil => simp [quoted.eq_def]
  case cons c s ih =>
    have ⟨hc, hs⟩ := List.forall_mem_cons.mp h
    have hn : name ++ c :: s = name ++ [c] ++ s := by simp
    rw [List.flatMap_cons, List.append_assoc, hn, ← ih hs]
    obtain ⟨_, ⟨hq, hd, hb⟩ | hq⟩ | ⟨hv, _⟩ := Text.quoteChar_cases c
    · rw [hq, List.cons_append, List.nil_append, quoted.eq_def]
      simp [hd, hb]
    · rw [hq, List.cons_append, List.cons_append, quoted.eq_def]
      simp
    · simp [hc] at hv

theorem bracketed?_toDigits (h : n < wordBound) :
    bracketed? (Nat.toDigits 10 n) = some (.index n) := by
  have hb : ∀ c ∈ Nat.toDigits 10 n, Text.isBlank c = false := fun c hc =>
    Text.isBlank_eq_false_of_isBare (Text.isBare_of_isDigit (Decimal.isDigit_toDigits c hc))
  have ht : Text.Trimmed (Nat.toDigits 10 n) :=
    ⟨Nat.toDigits_ne_nil, fun c hc => hb c (List.mem_of_head? hc), fun c hc => hb c (List.mem_of_getLast? hc)⟩
  simp [bracketed?, (Text.trim_eq_iff ht.ne_nil).mpr ht, Decimal.readIndex?_toDigits h]

-- A step in brackets and whatever is behind it.
theorem opened_index (h : n < wordBound) :
    opened (Nat.toDigits 10 n ++ ']' :: rest) = (.index n :: ·) <$> closed rest := by
  have hd : ∀ x, x.isDigit = false → x ∉ Nat.toDigits 10 n := fun x hx hm => by
    simp [Decimal.isDigit_toDigits x hm] at hx
  have hi := bracketed?_toDigits h
  cases hs : Nat.toDigits 10 n
  case nil => exact absurd hs Nat.toDigits_ne_nil
  case cons c r =>
    rw [hs] at hd hi
    have hq : c ≠ '"' ∧ c ≠ '\'' ∧ c ≠ ']' :=
      ⟨fun hc => hd '"' rfl (by simp [hc]), fun hc => hd '\'' rfl (by simp [hc]), fun hc => hd ']' rfl (by simp [hc])⟩
    have hr : ']' ∉ r := fun hc => hd ']' rfl (List.mem_cons_of_mem c hc)
    rw [List.cons_append, opened]
    simp only [hq, or_self, if_false]
    exact unquoted_append hr hi

/-! ## Steps behind each other -/

-- The text of steps that stand behind another one.
def behind (path : Path) : List Char :=
  path.flatMap fun step => (writeStep false step).toList

@[simp] theorem behind_cons : behind (step :: path) = (writeStep false step).toList ++ behind path :=
  List.flatMap_cons

theorem write_cons : (write (step :: path)).toList = (writeStep true step).toList ++ behind path := by
  rw [write, String.toList_append, String.toList_join, List.flatMap_map]
  rfl

theorem writeStep_cases (step : Segment) :
    (step.bareName? = none ∧
      ∃ body, ∀ first, (writeStep first step).toList = '[' :: (body ++ [']'])) ∨
    (∃ k, step = .key k ∧ step.bareName? = some k.toList ∧ needsQuotes k = false ∧
      (writeStep true step).toList = k.toList ∧ (writeStep false step).toList = '.' :: k.toList) := by
  cases step
  case index n => exact .inl ⟨rfl, Nat.toDigits 10 n, fun _ => by simp [writeStep, Segment.name]⟩
  case key k =>
    cases hq : needsQuotes k
    case false =>
      exact .inr ⟨k, rfl, by simp [Segment.bareName?, hq], hq, by simp [writeStep, hq],
        by simp [writeStep, hq]⟩
    case true =>
      exact .inl ⟨by simp [Segment.bareName?, hq], (Text.quote k).toList,
        fun _ => by simp [writeStep, hq]⟩

theorem opened_writeStep {body : List Char} (h : step.Legible)
    (hw : (writeStep false step).toList = '[' :: (body ++ [']'])) :
    opened (body ++ ']' :: rest) = (step :: ·) <$> closed rest := by
  cases step
  case index n =>
    obtain rfl : Nat.toDigits 10 n = body := by simpa [writeStep, Segment.name] using hw
    exact opened_index h
  case key k =>
    cases hq : needsQuotes k
    case false => simp [writeStep, hq] at hw
    case true  =>
      have hb : '"' :: (k.toList.flatMap Text.quoteChar ++ ['"']) ++ [']'] = body ++ [']'] := by
        simpa [writeStep, hq, Text.quote] using hw
      obtain rfl := List.append_cancel_right hb
      have hr : quoted '"' [] (k.toList.flatMap Text.quoteChar ++ '"' :: ']' :: rest) =
          closing (.key (.ofList ([] ++ k.toList))) (']' :: rest) := quoted_append (h hq)
      simp [opened, hr, closing]

theorem bare_name {k : String} (h : needsQuotes k = false) :
    k.toList ≠ [] ∧ ∀ c ∈ k.toList, c ≠ '.' ∧ c ≠ '[' ∧ c ≠ ']' := by
  simp only [needsQuotes, Bool.or_eq_false_iff, List.any_eq_false] at h
  have ⟨hn, hc⟩ := h
  exact ⟨by simpa using hn, by simpa [and_assoc] using hc⟩

theorem closed_behind (h : ∀ step ∈ path, step.Legible) :
    closed (behind path) = .ok path ∧
      ∀ name, name ≠ [] → bare name (behind path) = .ok (.key (.ofList name) :: path) := by
  induction path
  case nil => exact ⟨rfl, fun name hn => by simp [behind, bare, named, hn]⟩
  case cons step path ih =>
    have ⟨hs, hp⟩ := List.forall_mem_cons.mp h
    have ⟨hc, hb⟩ := ih hp
    rw [behind_cons]
    obtain ⟨_, body, hw⟩ | ⟨k, rfl, _, hq, _, hw⟩ := writeStep_cases step
    · have ho : opened (body ++ ']' :: behind path) = .ok (step :: path) := by
        rw [opened_writeStep hs (hw false), hc]
        rfl
      rw [hw false]
      exact ⟨by simp [closed, ho], fun name hn => by simp [bare, ho, named, hn]⟩
    · have ⟨hk, hd⟩ := bare_name hq
      have hr : bare [] (k.toList ++ behind path) = .ok (.key k :: path) := by
        rw [bare_append hd, List.nil_append, hb _ hk, String.ofList_toList]
      rw [hw, List.cons_append]
      exact ⟨by simp [closed, hr], fun name hn => by simp [bare, hr, named, hn]⟩

theorem steps_write (h : ∀ step ∈ path, step.Legible) : steps (write path).toList = .ok path := by
  cases path
  case nil => rfl
  case cons step path =>
    have ⟨hs, hp⟩ := List.forall_mem_cons.mp h
    have ⟨hc, hb⟩ := closed_behind hp
    rw [write_cons]
    obtain ⟨_, body, hw⟩ | ⟨k, rfl, _, hq, hw, _⟩ := writeStep_cases step
    · have ho : opened (body ++ ']' :: behind path) = _ := opened_writeStep hs (hw false)
      simp [hw, steps, bare, ho, hc, named]
    · have ⟨hk, hd⟩ := bare_name hq
      rw [hw, steps, if_neg (by simp [hk]), bare_append hd, List.nil_append, hb _ hk, String.ofList_toList]

/-! ## What is lost -/

variable {p : Char → Bool} {c : Char} {k : String}

theorem write_sublist : (write path).toList.Sublist (behind path) := by
  cases path
  case nil => exact List.Sublist.refl _
  case cons step path =>
    rw [write_cons, behind_cons]
    refine List.Sublist.append ?_ (List.Sublist.refl _)
    cases step
    case index => exact List.Sublist.refl _
    case key k => cases hq : needsQuotes k <;> simp [writeStep, hq]

-- Of the characters that no syntax is made of, a text has those of the names at most.
theorem countP_writeStep (hp : ∀ c, p c → Text.isMark c = false) :
    (writeStep false step).toList.countP p ≤ step.letters.countP p := by
  have hn (c : Char) := Text.eq_false_of_isMark (c := c) hp
  cases step
  case index n =>
    have hd : (Nat.toDigits 10 n).countP p = 0 := by
      rw [List.countP_eq_zero]
      exact fun x hx => by simp [hn x (Text.isMark_of_isDigit (Decimal.isDigit_toDigits x hx))]
    simp [writeStep, Segment.name, Segment.letters, hd, hn '[' rfl, hn ']' rfl]
  case key k =>
    cases hq : needsQuotes k
    case false => simp [writeStep, Segment.letters, hq, hn '.' rfl]
    case true  =>
      have := Text.countP_quoteChars (s := k.toList) hp
      simpa [writeStep, Segment.letters, hq, Text.quote, hn '[' rfl, hn ']' rfl, hn '"' rfl] using this

theorem countP_behind (hp : ∀ c, p c → Text.isMark c = false) :
    (behind path).countP p ≤ (letters path).countP p := by
  induction path
  case nil => exact Nat.le_refl _
  case cons step path ih =>
    rw [behind_cons, letters, List.flatMap_cons, List.countP_append, List.countP_append]
    exact Nat.add_le_add (countP_writeStep hp) ih

-- A character that is spelled out is missing.
theorem count_behind_lt (hk : .key k ∈ path) (hq : needsQuotes k) (hc : c ∈ k.toList)
    (hv : Text.isVisible c = false) : (behind path).count c < (letters path).count c := by
  have hm := Text.isMark_of_isVisible hv
  have hp : ∀ x, (x == c) → Text.isMark x = false := fun x hx => beq_iff_eq.mp hx ▸ hm
  obtain ⟨l, r, rfl⟩ := List.append_of_mem hk
  have hl : (behind l).count c ≤ (letters l).count c := countP_behind hp
  have hr : (behind r).count c ≤ (letters r).count c := countP_behind hp
  have hs : (writeStep false (.key k)).toList.count c = 0 := by
    rw [List.count_eq_zero]
    have := Text.not_mem_quoteChars (s := k.toList) hv
    have hx (x : Char) (hx : Text.isMark x) : c ≠ x := fun h => by simp [← h, hm] at hx
    simp [writeStep, hq, Text.quote, this, hx '[' rfl, hx ']' rfl, hx '"' rfl]
  have hk := List.count_pos_iff.mpr hc
  simp only [behind, letters, List.flatMap_append, List.flatMap_cons, List.count_append] at *
  simp only [List.count, Segment.letters] at *
  omega

/-! ## Legible paths -/

-- A step that is a bare name has no blank at that edge.
def NoBlankAt (edge : List Char → Option Char) (step? : Option Segment) : Prop :=
  ∀ name, step?.bind Segment.bareName? = some name → ∀ c, edge name = some c → Text.isBlank c = false

-- No character of a name is spelled out, and no blank stands at an end of the text.
structure Legible (path : Path) : Prop where
  steps : ∀ step ∈ path, step.Legible
  first : NoBlankAt List.head? path.head?
  last  : NoBlankAt List.getLast? path.getLast?

theorem legible_nil : Legible [] where
  steps := by simp
  first := by simp [NoBlankAt]
  last  := by simp [NoBlankAt]

theorem head?_write (hp : path.head? = some step) :
    (write path).toList.head? = (step.bareName?).elim (some '[') List.head? := by
  cases path
  case nil => cases hp
  case cons s path =>
    cases hp
    rw [write_cons]
    obtain ⟨hn, body, hw⟩ | ⟨k, rfl, hn, hq, hw, _⟩ := writeStep_cases step
    · simp [hw, hn]
    · have ⟨hk, _⟩ := bare_name hq
      simp [hw, hn, List.head?_append, List.head?_eq_some_head hk]

theorem write_ne_nil (hp : path ≠ []) : (write path).toList ≠ [] := by
  intro h
  have hw := head?_write (List.head?_eq_some_head hp)
  obtain ⟨hb, _⟩ | ⟨k, _, hb, hq, _⟩ := writeStep_cases (path.head hp)
  · simp [h, hb] at hw
  · simp only [h, hb, Option.elim_some, List.head?_nil] at hw
    exact (bare_name hq).1 (List.head?_eq_none_iff.mp hw.symm)

theorem exists_write_concat (path : Path) (step : Segment) :
    ∃ s first, (write (path ++ [step])).toList = s ++ (writeStep first step).toList := by
  cases path
  case nil => exact ⟨[], true, by simp [write_cons, behind]⟩
  case cons s path =>
    exact ⟨(writeStep true s).toList ++ behind path, false, by simp [write_cons, behind]⟩

theorem getLast?_write (hp : path.getLast? = some step) :
    (write path).toList.getLast? = (step.bareName?).elim (some ']') List.getLast? := by
  obtain ⟨path, rfl⟩ := List.getLast?_eq_some_iff.mp hp
  have ⟨s, first, hw⟩ := exists_write_concat path step
  rw [hw]
  obtain ⟨hn, body, hb⟩ | ⟨k, rfl, hn, hq, ht, hf⟩ := writeStep_cases step
  · simp [hb, hn, List.getLast?_cons]
  · have ⟨hk, _⟩ := bare_name hq
    cases first <;> simp [ht, hf, hn, List.getLast?_append, List.getLast?_cons,
      List.getLast?_eq_some_getLast hk]

theorem noBlankAt_some {edge : List Char → Option Char} (hc : Text.isBlank c = false) :
    NoBlankAt edge (some step) ↔
      ∀ x, (step.bareName?).elim (some c) edge = some x → Text.isBlank x = false := by
  simp only [NoBlankAt, Option.bind_some]
  cases step.bareName? <;> simp [hc]

theorem trimmed_write (hp : path ≠ []) :
    Text.Trimmed (write path).toList ↔
      NoBlankAt List.head? path.head? ∧ NoBlankAt List.getLast? path.getLast? := by
  have hn := write_ne_nil hp
  have hf := List.head?_eq_some_head hp
  have hl := List.getLast?_eq_some_getLast hp
  rw [hf, hl, noBlankAt_some (c := '[') rfl, noBlankAt_some (c := ']') rfl, ← head?_write hf,
    ← getLast?_write hl]
  exact ⟨fun h => ⟨h.first, h.last⟩, fun ⟨hf, hl⟩ => ⟨hn, hf, hl⟩⟩

/-! ## Parsed paths -/

theorem parse_eq_ok {text : String} :
    parse text = .ok path ↔ steps (Text.trim text.toList) = .ok path := by
  unfold parse
  cases steps (Text.trim text.toList) <;> simp [Except.mapError]

theorem drawnFrom_steps (h : steps s = .ok path) : DrawnFrom s path := by
  rw [steps] at h
  split at h
  · cases h
    exact drawnFrom_nil
  · simpa using yields_bare [] s path h

-- A path whose names are drawn from its own text has lost no character of them.
theorem DrawnFrom.legible (h : DrawnFrom (Text.trim (write path).toList) path) : path.Legible := by
  have hb : Text.trim (write path).toList = (write path).toList := by
    refine Text.trim_of_countP ?_
    calc (write path).toList.countP Text.isBlank
      _ ≤ (behind path).countP Text.isBlank := write_sublist.countP_le
      _ ≤ (letters path).countP Text.isBlank := countP_behind fun _ => Text.isMark_of_isBlank
      _ ≤ _ := h.names.countP_le
  have hs : ∀ step ∈ path, step.Legible := by
    intro step hm
    cases step
    case index n => exact h.positions n hm
    case key k =>
      intro hq c hc
      cases hv : Text.isVisible c
      case true  => rfl
      case false =>
        have h₁ := count_behind_lt hm hq hc hv
        have h₂ : (write path).toList.count c ≤ (behind path).count c := write_sublist.count_le c
        have h₃ : (letters path).count c ≤ _ := h.names.count_le c
        rw [hb] at h₃
        omega
  by_cases hp : path = []
  case pos => exact hp ▸ legible_nil
  case neg =>
    have ⟨hf, hl⟩ := (trimmed_write hp).mp ((Text.trim_eq_iff (write_ne_nil hp)).mp hb)
    exact ⟨hs, hf, hl⟩

theorem parse_write_iff : parse (write path) = .ok path ↔ path.Legible := by
  rw [parse_eq_ok]
  constructor
  case mp => exact fun h => (drawnFrom_steps h).legible
  case mpr =>
    intro hl
    by_cases hp : path = []
    case pos => rw [hp]; rfl
    case neg =>
      have ht := (trimmed_write hp).mpr ⟨hl.first, hl.last⟩
      rw [(Text.trim_eq_iff ht.ne_nil).mpr ht]
      exact steps_write hl.steps

-- The blank of a name at an end of the path goes with the blanks around the path, and the escape of a
-- line break is read as a letter.
theorem parse_write_lossy :
    parse "[\" oak\"]" = .ok [.key " oak"] ∧ parse (write [.key " oak"]) = .ok [.key "oak"] ∧
      parse "[\"a.\n\"]" = .ok [.key "a.\n"] ∧ parse (write [.key "a.\n"]) = .ok [.key "a.n"] := by
  decide +kernel

end Path

end Storyworld
