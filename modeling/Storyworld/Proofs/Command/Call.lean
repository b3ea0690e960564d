import Mathlib.Data.List.TakeWhile
import Storyworld.Proofs.Command.Nesting

/-!
How a text goes on from one of its places: a call of a verb that is taken as a command, one that is
passed over, or no call. The scan goes on right behind the part that it has understood.
-/

namespace Storyworld.Command

variable {v w : Verb} {c : Char} {s r t body inner rest behind : List Char}

theorem underscore_not_mem_opening_tail : '_' ∉ (opening v).tail := by
  cases v <;> decide

theorem opening_ne_nil : opening v ++ s ≠ [] := by
  simp [opening]

theorem opening_inj (h : opening v ++ s = opening w ++ r) : v = w ∧ s = r := by
  cases v <;> cases w <;> simp_all [opening, Verb.word]

theorem site?_opening : site? (opening v ++ s) = some (v, s) := by
  cases h : site? (opening v ++ s)
  case none =>
    have := List.findSome?_eq_none_iff.mp h v v.mem_all
    simp at this
  case some p =>
    obtain ⟨w, -, hw⟩ := List.exists_of_findSome?_eq_some h
    obtain ⟨r, hr, rfl⟩ := Option.map_eq_some_iff.mp hw
    obtain ⟨rfl, rfl⟩ := opening_inj <| Text.eq_append_of_behind? hr
    rfl

theorem site?_eq_none (h : ∀ v, ¬opening v <+: s) : site? s = none := by
  refine List.findSome?_eq_none_iff.mpr fun v _ => Option.map_eq_none_iff.mpr ?_
  exact Option.eq_none_iff_forall_ne_some.mpr fun r hr =>
    h v ⟨r, (Text.eq_append_of_behind? hr).symm⟩

def OneLine (s : List Char) : Prop :=
  ∀ c ∈ s, c ≠ '\n' ∧ c ≠ '\r'

instance : Decidable (OneLine s) :=
  List.decidableBAll _ s

-- The comment `body` up to the end of its line, behind blanks.
structure Commented (s body rest : List Char) : Prop where
  start : ∃ blanks, s = blanks ++ '/' :: '/' :: (body ++ rest) ∧ ∀ c ∈ blanks, c = ' ' ∨ c = '\t'
  line  : OneLine body
  stop  : ∀ c, rest.head? = some c → c = '\n' ∨ c = '\r'

-- The reason for a command, from what stands behind its call.
inductive Reason : List Char → String → List Char → Prop
  | comment {s body rest : List Char} (h : Commented s body rest) : Reason s (.ofList (Text.trim body)) rest
  | absent {s : List Char} (h : ∀ body rest, ¬Commented s body rest) : Reason s "" s

theorem readReason_of_commented (h : Commented s body rest) :
    readReason s = (.ofList (Text.trim body), rest) := by
  obtain ⟨blanks, rfl, hb⟩ := h.start
  have hd : (blanks ++ '/' :: '/' :: (body ++ rest)).dropWhile (fun c => c == ' ' || c == '\t') =
      '/' :: '/' :: (body ++ rest) := by
    rw [List.dropWhile_append_of_pos (by simpa using hb)]
    rfl
  have hl : ∀ c ∈ body, (c != '\n' && c != '\r') = true := by simpa [OneLine] using h.line
  have hs : rest.takeWhile (fun c => c != '\n' && c != '\r') = [] ∧
      rest.dropWhile (fun c => c != '\n' && c != '\r') = rest := by
    cases rest
    case nil         => simp
    case cons c rest => obtain rfl | rfl := h.stop c rfl <;> simp
  simp only [readReason, hd]
  rw [List.takeWhile_append_of_pos hl, List.dropWhile_append_of_pos hl, hs.1, hs.2, List.append_nil]

theorem reason_readReason : Reason s (readReason s).1 (readReason s).2 := by
  by_cases h : ∃ body rest, Commented s body rest
  case pos =>
    obtain ⟨body, rest, h⟩ := h
    rw [readReason_of_commented h]
    exact .comment h
  case neg =>
    have h : ∀ body rest, ¬Commented s body rest := fun body rest hc => h ⟨body, rest, hc⟩
    unfold readReason
    split
    case h_2 => exact .absent h
    case h_1 line hd =>
      refine absurd ?_ (h (line.takeWhile fun c => c != '\n' && c != '\r')
        (line.dropWhile fun c => c != '\n' && c != '\r'))
      refine ⟨⟨s.takeWhile fun c => c == ' ' || c == '\t', ?_, ?_⟩, ?_, ?_⟩
      · rw [List.takeWhile_append_dropWhile, ← hd, List.takeWhile_append_dropWhile]
      · intro c hc
        simpa using List.mem_takeWhile_imp hc
      · intro c hc
        simpa using List.mem_takeWhile_imp hc
      · intro c hc
        have := List.head?_dropWhile_not (fun c => c != '\n' && c != '\r') line
        rw [hc] at this
        simpa [Decidable.or_iff_not_imp_left] using this

theorem Reason.eq {reason : String} (h : Reason s reason rest) : readReason s = (reason, rest) := by
  cases h
  case comment h => exact readReason_of_commented h
  case absent h =>
    cases hr : readReason s
    have := hr ▸ reason_readReason (s := s)
    cases this
    case comment hc => exact absurd hc (h _ _)
    case absent => rfl

-- What there is at a place, the command that it gives, and the place behind it.
inductive Reading : List Char → Option Command → List Char → Prop
  | elsewhere {c : Char} {s : List Char} (h : ∀ v, ¬opening v <+: c :: s) : Reading (c :: s) none s
  | unclosed {v : Verb} {body : List Char} (h : Unclosed body) : Reading (opening v ++ body) none body
  | loose {v : Verb} {body inner rest : List Char} (h : Closes body inner rest)
      (hn : rest.head? ≠ some ';') : Reading (opening v ++ body) none rest
  | refused {v : Verb} {body inner behind rest : List Char} {reason : String}
      (h : Closes body inner (';' :: behind)) (ha : ¬v.accepts (splitArguments inner).length)
      (hr : Reason behind reason rest) : Reading (opening v ++ body) none rest
  | taken {v : Verb} {body inner behind rest : List Char} {reason : String}
      (h : Closes body inner (';' :: behind)) (ha : v.accepts (splitArguments inner).length)
      (hr : Reason behind reason rest) :
      Reading (opening v ++ body) (some ⟨v, callText v inner, splitArguments inner, reason⟩) rest

theorem Reading.eq {cmd? : Option Command} (h : Reading s cmd? rest) : readCall s = (cmd?, rest) := by
  unfold readCall
  cases h
  case elsewhere h       => rw [site?_eq_none h]; rfl
  case unclosed h        => rw [site?_opening]; simp [unclosed_iff.mp h]
  case loose h hn        =>
    rw [site?_opening]
    cases rest
    case nil         => simp [closes_iff.mp h]
    case cons d rest =>
      have hd : d ≠ ';' := fun he => hn (he ▸ rfl)
      simp [closes_iff.mp h, hd]
  case refused h ha hr   => rw [site?_opening]; simp [closes_iff.mp h, hr.eq, ha]
  case taken h ha hr     => rw [site?_opening]; simp [closes_iff.mp h, hr.eq, ha]

theorem exists_reading (h : s ≠ []) : ∃ cmd? rest, Reading s cmd? rest := by
  by_cases ho : ∃ v, opening v <+: s
  case neg =>
    obtain ⟨c, s, rfl⟩ := List.exists_cons_of_ne_nil h
    exact ⟨_, _, .elsewhere fun v hv => ho ⟨v, hv⟩⟩
  case pos =>
    obtain ⟨v, body, rfl⟩ := ho
    cases hc : closing? {} 0 body
    case none => exact ⟨_, _, .unclosed (unclosed_iff.mpr hc)⟩
    case some p =>
      obtain ⟨inner, after⟩ := p
      have hc := closes_iff.mpr hc
      by_cases hs : after.head? = some ';'
      case neg => exact ⟨_, _, .loose hc hs⟩
      case pos =>
        obtain ⟨behind, rfl⟩ := List.head?_eq_some_iff.mp hs
        by_cases ha : v.accepts (splitArguments inner).length
        · exact ⟨_, _, .taken hc ha reason_readReason⟩
        · exact ⟨_, _, .refused hc ha reason_readReason⟩

variable {whole : Nat} {cmd? : Option Command}

theorem occurrences_nil : occurrences whole [] = [] := by
  rw [occurrences, dif_pos rfl]

theorem Reading.ne_nil (h : Reading s cmd? rest) : s ≠ [] := by
  cases h
  case elsewhere => simp
  all_goals exact opening_ne_nil

theorem occurrences_of_ne_nil (h : s ≠ []) :
    occurrences whole s =
      ((readCall s).1.map (⟨whole - s.length, ·⟩)).toList ++ occurrences whole (readCall s).2 := by
  rw [occurrences, dif_neg h]
  cases (readCall s).1 <;> rfl

theorem Reading.occurrences (h : Reading s cmd? rest) :
    occurrences whole s = (cmd?.map (⟨whole - s.length, ·⟩)).toList ++ Command.occurrences whole rest := by
  rw [occurrences_of_ne_nil h.ne_nil, h.eq]

end Storyworld.Command
