import Mathlib.Algebra.Ring.Nat
import Mathlib.Data.List.Forall2
import Storyworld.Lint
import Storyworld.Proofs.Command.Account

/-!
The calls that a check counts as malformed are those that no command was made of and that stand in none.
A command is looked for behind the one before it, which may find an earlier place of the same text; but
as many calls stand in that place as in its own.
-/

namespace Storyworld

/-! ## First places -/

namespace Text

variable {piece s : List Char} {k n : Nat}

theorem isSome_behind?_iff : (behind? piece s).isSome ↔ piece <+: s := by
  constructor
  · intro h
    obtain ⟨rest, hr⟩ := Option.isSome_iff_exists.mp h
    exact ⟨rest, (eq_append_of_behind? hr).symm⟩
  · rintro ⟨rest, rfl⟩
    simp

theorem prefix_of_find? (h : find? piece s = some n) : piece <+: s.drop n := by
  induction s generalizing n
  case nil => simp_all [find?]
  case cons c s ih =>
    unfold find? at h
    split at h
    case isTrue hb =>
      obtain rfl := Option.some.inj h
      exact isSome_behind?_iff.mp hb
    case isFalse =>
      obtain ⟨m, hm, rfl⟩ := Option.map_eq_some_iff.mp h
      exact ih hm

-- The first place is no later than any other.
theorem exists_find? (h : piece <+: s.drop k) : ∃ n, find? piece s = some n ∧ n ≤ k := by
  induction s generalizing k
  case nil => exact ⟨0, by simp_all [find?]⟩
  case cons c s ih =>
    by_cases hb : (behind? piece (c :: s)).isSome
    case pos => exact ⟨0, by simp [find?, hb]⟩
    case neg =>
      cases k
      case zero   => exact absurd (isSome_behind?_iff.mpr h) hb
      case succ k =>
        obtain ⟨n, hn, hl⟩ := ih h
        exact ⟨n + 1, by simp [find?, hb, hn], by omega⟩

end Text

namespace Lint

open Command

variable {s text body behind call : List Char} {read k : Nat} {v : Verb} {o : Occurrence}
  {found : List Occurrence} {commands : List Command} {span : Span} {q : Nat → Bool}

/-! ## Calls of verbs -/

def isCall (s : List Char) : Bool :=
  (site? s).isSome

-- The calls of verbs in a text, by the characters before them.
def places (s : List Char) : List Nat :=
  (List.range s.length).filter fun i => isCall (s.drop i)

theorem isCall_iff : isCall s ↔ ∃ v, opening v <+: s := by
  constructor
  · intro h
    by_contra hn
    simp [isCall, site?_eq_none (not_exists.mp hn)] at h
  · rintro ⟨v, rest, rfl⟩
    simp [isCall, site?_opening]

theorem inWord_of_mem_word : ∀ c ∈ v.word.toList, inWord c := by
  have h : v.word.toList.all inWord := by cases v <;> decide
  exact List.all_eq_true.mp h

theorem word_of_ofWord? {word : String} (h : Verb.ofWord? word = some v) : v.word = word := by
  simpa using List.find?_some h

theorem calledWord?_opening : calledWord? (opening v ++ s) = some v.word := by
  have ht : (v.word.toList ++ '(' :: s).takeWhile inWord = v.word.toList := by
    rw [List.takeWhile_append_of_pos inWord_of_mem_word]
    simp [inWord]
  simp [opening, calledWord?, ht]

theorem calledWord?_eq_some {word : String} (h : calledWord? s = some word) :
    ∃ rest, s = '_' :: '.' :: (word.toList ++ '(' :: rest) := by
  unfold calledWord? at h
  split at h
  case h_2 => cases h
  case h_1 s =>
    dsimp only at h
    split at h
    case isFalse => cases h
    case isTrue hh =>
      obtain rfl := Option.some.inj h
      obtain ⟨rest, hr⟩ := List.head?_eq_some_iff.mp hh
      refine ⟨rest, ?_⟩
      rw [String.toList_ofList, ← hr, List.prefix_iff_eq_append.mp (List.takeWhile_prefix inWord)]

-- Both ways of reading the word of a call find the same verbs.
theorem isCall_iff_calledWord? :
    isCall s ↔ ∃ word, calledWord? s = some word ∧ (Verb.ofWord? word).isSome := by
  rw [isCall_iff]
  constructor
  · rintro ⟨v, rest, rfl⟩
    exact ⟨v.word, calledWord?_opening, by simp [Verb.ofWord?_word]⟩
  · rintro ⟨word, hw, hv⟩
    obtain ⟨rest, rfl⟩ := calledWord?_eq_some hw
    obtain ⟨v, hv⟩ := Option.isSome_iff_exists.mp hv
    obtain rfl := word_of_ofWord? hv
    exact ⟨v, rest, by simp [opening]⟩

def known (call : Nat × String) : Bool :=
  (Verb.ofWord? call.2).isSome

theorem calls_cons {c : Char} : (calls read (c :: s)).filter known =
    (if isCall (c :: s) then [(read, (calledWord? (c :: s)).getD "")] else []) ++
      (calls (read + 1) s).filter known := by
  cases hw : calledWord? (c :: s)
  case none =>
    have hc : ¬isCall (c :: s) := by simp [isCall_iff_calledWord?, hw]
    simp [calls, hw, hc]
  case some word =>
    have hc : isCall (c :: s) ↔ known (read, word) := by simp [isCall_iff_calledWord?, hw, known]
    by_cases hk : known (read, word) <;> simp [calls, hw, hc, hk]

theorem places_cons {c : Char} : places (c :: s) =
    (if isCall (c :: s) then [0] else []) ++ (places s).map (· + 1) := by
  rw [places, List.length_cons, List.range_succ_eq_map, List.filter_cons, List.filter_map, List.drop_zero]
  split <;> simp [Function.comp_def, places]

theorem calls_eq : ((calls read s).filter known).map Prod.fst = (places s).map (read + ·) := by
  induction s generalizing read
  case nil => rfl
  case cons c s ih =>
    rw [calls_cons, places_cons]
    split <;> simp [ih, Function.comp_def, Nat.add_assoc, Nat.add_comm 1]

/-! ## Calls inside a piece of text -/

theorem semicolon_notMem_opening : ';' ∉ opening v := by
  cases v <;> decide

theorem opening_prefix_iff : opening v <+: body ++ ';' :: behind ↔ opening v <+: body := by
  refine ⟨fun h => ?_, fun h => h.trans (List.prefix_append _ _)⟩
  have hb : body ++ [';'] <+: body ++ ';' :: behind := ⟨behind, by simp⟩
  obtain h | h := List.prefix_or_prefix_of_prefix h hb
  case inl =>
    obtain h | h := List.prefix_concat_iff.mp h
    · exact absurd (h ▸ List.mem_concat_self) semicolon_notMem_opening
    · exact h
  case inr => exact absurd (h.subset List.mem_concat_self) semicolon_notMem_opening

-- No call goes on behind a semicolon.
theorem isCall_append : isCall (body ++ ';' :: behind) = isCall (body ++ [';']) := by
  rw [Bool.eq_iff_iff, isCall_iff, isCall_iff]
  simp only [opening_prefix_iff]

-- Of all calls in a text, those inside a piece that ends in a semicolon are the calls of that piece.
theorem countP_places (hc : body ++ [';'] <+: s.drop k) (hq : ∀ i, q i → k ≤ i ∧ i ≤ k + body.length) :
    (places s).countP q = (places (body ++ [';'])).countP fun i => q (k + i) := by
  obtain ⟨behind, hs⟩ := hc
  have hl : s.length = k + (body.length + 1) + behind.length := by
    have := congrArg List.length hs
    simp at this
    omega
  have hd : ∀ i ∈ List.range (body.length + 1),
      isCall (s.drop (k + i)) = isCall ((body ++ [';']).drop i) := by
    intro i hi
    have hi : i ≤ body.length := by simpa [Nat.lt_succ_iff] using hi
    rw [← List.drop_drop, ← hs, List.append_assoc, List.drop_append_of_le_length hi,
      List.drop_append_of_le_length hi]
    exact isCall_append
  have hz (l : List Nat) (h : ∀ i ∈ l, i < k ∨ k + body.length < i) :
      (l.filter fun i => isCall (s.drop i)).countP q = 0 := by
    refine List.countP_eq_zero.mpr fun i hi hqi => ?_
    have := hq i hqi
    have := h i (List.mem_filter.mp hi).1
    omega
  have hb := hz (List.range k) fun i hi => .inl (List.mem_range.mp hi)
  have ha := hz ((List.range behind.length).map (k + (body.length + 1) + ·)) (by simp; omega)
  rw [places, hl, List.range_add, List.range_add]
  simp only [List.filter_append, List.countP_append, hb, ha, Nat.zero_add, Nat.add_zero]
  rw [List.filter_map, List.countP_map, places, List.length_append, List.length_singleton,
    ← List.filter_congr hd]
  rfl

-- The text of a call, up to its semicolon.
def IsCommand (call : List Char) : Prop :=
  ∃ v inner, call = opening v ++ inner ++ [')', ';']

-- The calls of a text behind its first character.
def innerCalls (call : List Char) : Nat :=
  (places call).countP (0 < ·)

theorem IsCommand.length_places (h : IsCommand call) : (places call).length = innerCalls call + 1 := by
  obtain ⟨v, args, hc⟩ := h
  obtain ⟨c, s, rfl⟩ : ∃ c s, call = c :: s := ⟨'_', _, hc⟩
  have hc : isCall (c :: s) := isCall_iff.mpr ⟨v, _, by rw [hc, List.append_assoc]⟩
  simp [innerCalls, places_cons, hc, List.countP_map, Function.comp_def]

theorem IsCommand.concat (h : IsCommand call) : ∃ body, call = body ++ [';'] := by
  obtain ⟨v, args, rfl⟩ := h
  exact ⟨opening v ++ args ++ [')'], by simp⟩

theorem lt_of_mem_places {i : Nat} (h : i ∈ places s) : i < s.length :=
  List.mem_range.mp (List.mem_filter.mp h).1

theorem IsCommand.countP_behind (h : IsCommand call) (hc : call <+: s.drop k) :
    (places s).countP (fun i => k < i && i < k + call.length) = innerCalls call := by
  obtain ⟨body, rfl⟩ := h.concat
  rw [countP_places hc (by simp; omega), innerCalls]
  refine List.countP_congr fun i hi => ?_
  have := lt_of_mem_places hi
  simp at this ⊢
  omega

theorem IsCommand.countP_within (h : IsCommand call) (hc : call <+: s.drop k) :
    (places s).countP (fun i => k ≤ i && i < k + call.length) = innerCalls call + 1 := by
  rw [← h.length_places]
  obtain ⟨body, rfl⟩ := h.concat
  rw [countP_places hc (by simp; omega), List.countP_eq_length]
  intro i hi
  have := lt_of_mem_places hi
  simp at this ⊢
  omega

/-! ## Places that are not covered -/

-- Of what is covered once at most, as much is left as there is less what each cover takes.
theorem countP_outside {α : Type} {cs : List α} (covers : α → Nat → Bool) (l : List Nat)
    (h : cs.Pairwise fun a b => ∀ i, covers a i → ¬covers b i) :
    l.countP (fun i => !cs.any (covers · i)) + (cs.map fun a => l.countP (covers a)).sum = l.length := by
  induction cs
  case nil => simp
  case cons a cs ih =>
    obtain ⟨ha, h⟩ := List.pairwise_cons.mp h
    have hi : l.countP (fun i => !cs.any (covers · i)) =
        l.countP (covers a) + l.countP fun i => !(a :: cs).any (covers · i) := by
      rw [List.countP_eq_countP_filter_add l _ (covers a), List.countP_filter, List.countP_filter]
      congr 1
      · refine List.countP_congr fun i _ => ?_
        simp only [Bool.and_eq_true, Bool.not_eq_true', List.any_eq_false, and_iff_right_iff_imp]
        exact fun hi b hb => ha b hb i hi
      · refine List.countP_congr fun i _ => ?_
        simp only [List.any_cons, Bool.not_or, Bool.and_comm]
    have := ih h
    simp only [List.map_cons, List.sum_cons]
    omega

/-! ## Where the commands are found again -/

-- The span has the text of a call.
structure Span.Marks (span : Span) (text call : List Char) : Prop where
  stop : span.stop = span.start + call.length
  text : call <+: text.drop span.start

theorem Span.Marks.countP (h : span.Marks text call) (hc : IsCommand call) :
    (places text).countP span.encloses = innerCalls call := by
  rw [← hc.countP_behind h.text]
  refine List.countP_congr fun i _ => ?_
  rw [encloses, h.stop]

theorem spans_forward : (spans read s commands).Pairwise (fun a b => a.stop ≤ b.start) ∧
    ∀ span ∈ spans read s commands, read ≤ span.start := by
  induction commands generalizing read s
  case nil => simp [spans]
  case cons c commands ih =>
    unfold spans
    dsimp only
    split
    case h_1 n hn =>
      refine ⟨List.pairwise_cons.mpr ⟨ih.2, ih.1⟩, List.forall_mem_cons.mpr ⟨by simp, fun span h => ?_⟩⟩
      have := ih.2 span h
      omega
    case h_2 => exact ih

-- Each command is found, at its own place or before it.
theorem spans_mark (hp : found.Pairwise (Precedes text))
    (ht : ∀ o ∈ found, ∃ inner behind, Taken text o inner behind) (hr : ∀ o ∈ found, read ≤ o.start) :
    List.Forall₂ (fun span o => span.Marks text o.command.call.toList)
      (spans read (text.drop read) (found.map (·.command))) found := by
  induction found generalizing read
  case nil => exact .nil
  case cons o found ih =>
    obtain ⟨ho, hp⟩ := List.pairwise_cons.mp hp
    obtain ⟨⟨inner, behind, hk⟩, ht⟩ := List.forall_mem_cons.mp ht
    obtain ⟨hs, -⟩ := List.forall_mem_cons.mp hr
    have hd : o.command.call.toList <+: (text.drop read).drop (o.start - read) := by
      rw [List.drop_drop, Nat.add_sub_cancel' hs, hk.span]
      exact List.prefix_append _ _
    obtain ⟨n, hn, hl⟩ := Text.exists_find? hd
    have hm := Text.prefix_of_find? hn
    rw [List.drop_drop] at hm
    simp only [List.map_cons, spans, hn]
    refine .cons ⟨rfl, hm⟩ ?_
    rw [List.drop_drop, ← Nat.add_assoc]
    refine ih hp ht fun b hb => ?_
    have := (ho b hb).span
    rw [← String.length_toList] at this
    omega

/-! ## Calls that are dropped -/

-- The place is at the start of the command or inside its call.
def covers (o : Occurrence) (i : Nat) : Bool :=
  o.start ≤ i && i < o.start + o.command.call.length

-- The calls of verbs that no command was made of, and that are no part of one.
def dropped (text : String) : List Nat :=
  (places text.toList).filter fun i => !(occurrences text.length text.toList).any (covers · i)

def Fault.malformed? : Fault → Option Nat
  | malformedCalls count => some count
  | _ => none

theorem filterMap_pathFault? : (commands.filterMap pathFault?).filterMap Fault.malformed? = [] := by
  simp only [List.filterMap_filterMap, List.filterMap_eq_nil_iff, Option.bind_eq_none_iff]
  intro c _ fault hf
  unfold pathFault? at hf
  dsimp only at hf
  split at hf
  case h_1 => exact Option.some.inj hf ▸ rfl
  case h_2 =>
    split at hf
    · exact Option.some.inj hf ▸ rfl
    · cases hf

theorem length_filter_freeWords {spans : List Span} :
    ((freeWords spans (calls 0 s)).filter fun word => (Verb.ofWord? word).isSome).length =
      (places s).countP fun i => !spans.any (·.encloses i) := by
  have hp : places s = ((calls 0 s).filter known).map Prod.fst := by simp [calls_eq]
  rw [hp, freeWords, List.filter_map, List.length_map, List.countP_map, List.filter_filter,
    List.countP_eq_length_filter, List.filter_filter]
  congr 1
  refine List.filter_congr fun call _ => ?_
  simp [known, Bool.and_comm]

theorem isCommand_of_taken {args : List Char} (h : Taken text o args behind) :
    IsCommand o.command.call.toList :=
  ⟨_, _, h.form⟩

theorem countP_covers {args : List Char} (h : Taken text o args behind) :
    (places text).countP (covers o) = innerCalls o.command.call.toList + 1 := by
  rw [← (isCommand_of_taken h).countP_within ⟨behind, h.span.symm⟩]
  refine List.countP_congr fun i _ => ?_
  rw [covers, String.length_toList]

-- What the spans leave of the calls, and what the commands leave of them where they stand.
theorem countP_marks {marks : List Span}
    (hm : List.Forall₂ (fun span o => span.Marks text o.command.call.toList) marks found)
    (hs : marks.Pairwise fun a b => a.stop ≤ b.start) (hp : found.Pairwise (Precedes text))
    (ht : ∀ o ∈ found, ∃ inner behind, Taken text o inner behind) :
    (places text).countP (fun i => !marks.any (·.encloses i)) =
      (places text).countP (fun i => !found.any (covers · i)) + found.length := by
  have h₁ := countP_outside Span.encloses (places text) <| hs.imp fun {a b} h i ha hb => by
    simp only [Span.encloses, Bool.and_eq_true, decide_eq_true_eq] at ha hb
    omega
  have h₂ := countP_outside covers (places text) <| hp.imp fun {a b} h i ha hb => by
    simp only [covers, Bool.and_eq_true, decide_eq_true_eq] at ha hb
    have := h.span
    omega
  have h₃ : (marks.map fun span => (places text).countP span.encloses).sum + found.length =
      (found.map fun o => (places text).countP (covers o)).sum := by
    clear h₁ h₂ hs hp
    induction hm
    case nil => rfl
    case cons span o marks found hm _ ih =>
      obtain ⟨⟨args, behind, hk⟩, ht⟩ := List.forall_mem_cons.mp ht
      have := ih ht
      simp only [List.map_cons, List.sum_cons, List.length_cons, hm.countP (isCommand_of_taken hk),
        countP_covers hk]
      omega
  omega

-- As many calls are dropped as the check finds too many.
theorem skipped_eq (text : String) :
    skipped (freeWords (spans 0 text.toList (extract text)) (calls 0 text.toList)) (extract text) =
      (dropped text).length := by
  have hp : (occurrences text.toList.length text.toList).Pairwise (Precedes text.toList) :=
    Visits.start.ordered
  have ht : ∀ o ∈ occurrences text.toList.length text.toList,
      ∃ inner behind, Taken text.toList o inner behind := fun o ho => Visits.start.exists_taken ho
  rw [String.length_toList] at hp ht
  have hm := spans_mark hp ht fun o _ => Nat.zero_le o.start
  have hc := countP_marks hm spans_forward.1 hp ht
  rw [List.drop_zero] at hc
  rw [skipped, length_filter_freeWords, extract, hc, List.length_map, Nat.add_sub_cancel, dropped,
    List.countP_eq_length_filter]

-- A text is told once how many of its calls are dropped, if any are.
theorem malformed_check (text : String) :
    (check text).faults.filterMap Fault.malformed? =
      if dropped text = [] then [] else [(dropped text).length] := by
  have hs := skipped_eq text
  simp only [check, List.filterMap_append, filterMap_pathFault?, List.append_nil, hs, List.length_eq_zero_iff]
  split <;> rfl

-- The command is found again inside the call that is dropped before it.
example : dropped "_.set(_.add(gold,1);) _.add(gold,1);" = [0, 6] := by decide +kernel

end Lint

end Storyworld
