import Storyworld.Proofs.Command.Account
import Storyworld.Proofs.Command.Json

/-!
Which texts a command carries as its last argument, and among them which JSON texts: at least those of
all trees without a string that ends in a backslash.
-/

namespace Storyworld.Command

variable {v : Verb} {q : Quoting} {depth : Int} {a b s t rest inner behind cur : List Char}

-- A text with a call of two arguments and nothing else.
def pairCall (v : Verb) (a t : List Char) : List Char :=
  opening v ++ (a ++ [',', ' '] ++ t) ++ [')', ';']

-- Between two arguments stands at least their comma.
theorem length_splitFrom_le :
    ((splitFrom q depth cur s).flatMap String.toList).length + (splitFrom q depth cur s).length ≤
      cur.length + s.length + 1 := by
  have hl (cur : List Char) : (Text.trim cur).length ≤ cur.length :=
    Nat.le_trans Text.length_trim_le (List.dropWhile_sublist Text.isBlank).length_le
  induction s generalizing q depth cur
  case nil =>
    have := hl cur
    simp only [splitFrom]
    split <;> simp
    omega
  case cons c s ih =>
    have := hl cur
    rw [splitFrom_cons]
    split
    · have hr := @ih (q.next c) 0 []
      simp only [List.flatMap_cons, String.toList_ofList, List.length_append, List.length_cons,
        List.length_nil] at hr ⊢
      omega
    · have hr := @ih (q.next c) (depth + q.level bracket [c]) (cur ++ [c])
      simp only [List.length_append, List.length_cons, List.length_nil] at hr ⊢
      omega

theorem encloses_pair (ha : IsArgument a) : Encloses {} 0 (a ++ [',', ' '] ++ t) ↔ Encloses {} 0 t := by
  have hb : Encloses {} 0 (' ' :: t) ↔ Encloses {} 0 t :=
    encloses_join (a := []) separates_blank (encloses_nil.mpr ⟨rfl, rfl⟩)
  rw [List.append_assoc, ← hb]
  exact encloses_join separates_comma ha.toEncloses

theorem splitArguments_pair (ha : IsArgument a) :
    splitArguments (a ++ [',', ' '] ++ t) = .ofList a :: splitFrom {} 0 [' '] t :=
  splitFrom_comma ha.toTrimmed ha.toBalanced (by simp)

-- The scan finds no other place for a call with these arguments: they fill the text.
theorem inner_of_suffix (h : opening v ++ (inner ++ ')' :: ';' :: behind) <:+ pairCall v a t)
    (hs : splitArguments inner = [.ofList a, .ofList t]) : inner = a ++ [',', ' '] ++ t := by
  have hi : a.length + t.length + 1 ≤ inner.length := by
    have hl := @length_splitFrom_le {} 0 inner []
    rw [show splitFrom {} 0 [] inner = _ from hs] at hl
    simp at hl
    omega
  have he : opening v ++ (inner ++ ')' :: ';' :: behind) = pairCall v a t := by
    obtain he | h := List.suffix_cons_iff.mp h
    · exact he
    · obtain he | h := List.suffix_cons_iff.mp h
      · cases he
      · have := h.length_le
        simp [opening] at this
        omega
  rw [pairCall, List.append_assoc, List.append_cancel_left_eq] at he
  have hl := congrArg List.length he
  simp at hl
  obtain rfl | ⟨d, x, rfl⟩ := behind.eq_nil_or_concat
  · exact List.append_cancel_right he
  · -- One character less in front, and the parenthesis would be the semicolon.
    obtain rfl : d = [] := List.length_eq_zero_iff.mp (by simp at hl; omega)
    have he : inner ++ [')'] ++ [';'] ++ [x] = a ++ [',', ' '] ++ t ++ [')'] ++ [';'] := by simpa using he
    have he := (List.append_inj' he rfl).1
    cases (List.append_inj' he rfl).2

theorem reading_pairCall (hv : v.accepts 2) (ha : IsArgument a) (ht : Text.Trimmed t)
    (he : Encloses {} 0 t) (hu : Undivided {} 0 t) :
    Reading (pairCall v a t) (some ⟨v, callText v (a ++ [',', ' '] ++ t), [.ofList a, .ofList t], ""⟩) [] := by
  have hs : splitArguments (a ++ [',', ' '] ++ t) = [.ofList a, .ofList t] := by
    rw [splitArguments_pair ha, splitFrom_last ht hu (List.forall_mem_singleton.mpr (by decide))]
  have hc : Closes (a ++ [',', ' '] ++ t ++ ')' :: ';' :: []) (a ++ [',', ' '] ++ t) (';' :: []) :=
    ((encloses_pair ha).mpr he).closes
  have hn : ∀ body rest, ¬Commented [] body rest := fun body rest h => by
    obtain ⟨blanks, h, -⟩ := h.start
    simp at h
  have hr := Reading.taken (v := v) hc (by rw [hs]; exact hv) (.absent hn)
  rw [hs] at hr
  simpa [pairCall] using hr

theorem carries_iff (hv : v.accepts 2) (ha : IsArgument a) (ht : Text.Trimmed t) :
    (∃ c, extract (.ofList (pairCall v a t)) = [c] ∧ c.verb = v ∧ c.args = [.ofList a, .ofList t]) ↔
      Encloses {} 0 t ∧ Undivided {} 0 t := by
  rw [extract, String.toList_ofList, String.length_ofList]
  constructor
  · rintro ⟨c, h, hverb, hargs⟩
    obtain ⟨o, ho, rfl⟩ := List.map_eq_singleton_iff.mp h
    have ho : o ∈ occurrences (pairCall v a t).length (pairCall v a t) := ho ▸ List.mem_singleton_self o
    have ⟨inner, behind, hk⟩ := Visits.start.exists_taken ho
    have hs : opening v ++ (inner ++ ')' :: ';' :: behind) <:+ pairCall v a t := by
      have hd := List.drop_suffix o.start (pairCall v a t)
      rw [hk.span, hk.form, hverb] at hd
      simpa using hd
    have hargs := hk.args.symm.trans hargs
    obtain rfl := inner_of_suffix hs hargs
    have hsplit := (List.cons.inj <| (splitArguments_pair ha).symm.trans hargs).2
    have hu := undivided_of_splitFrom hsplit (by simp [Text.trimStart, Text.isBlank])
    exact ⟨(encloses_pair ha).mp hk.closes.encloses, hu⟩
  · rintro ⟨he, hu⟩
    refine ⟨⟨v, callText v (a ++ [',', ' '] ++ t), [.ofList a, .ofList t], ""⟩, ?_, rfl, rfl⟩
    rw [(reading_pairCall hv ha ht he hu).occurrences, occurrences_nil]
    rfl

variable {j : Tree} {w : String}

-- A value as JSON text, in a command that stores it at `p`.
def carrier (j : Tree) : String :=
  "_.set('p', " ++ j.toJson ++ ");"

def Carries (j : Tree) : Prop :=
  ∃ c, extract (carrier j) = [c] ∧ c.verb = .set ∧ c.args = ["'p'", j.toJson]

theorem carrier_eq : carrier j = .ofList (pairCall .set "'p'".toList (Json.write j)) := by
  apply String.toList_injective
  simp [carrier, pairCall, opening, Verb.word, Tree.toJson]

theorem carries_json_iff : Carries j ↔ Encloses {} 0 (Json.write j) ∧ Undivided {} 0 (Json.write j) := by
  have := carries_iff (v := .set) (a := "'p'".toList) (by decide) (by decide +kernel) (@trimmed_write j)
  rwa [← carrier_eq, String.ofList_toList] at this

theorem carries_of_no_backslash (h : ∀ s, j.Holds s → ¬EndsInBackslash s) : Carries j :=
  carries_json_iff.mpr ⟨(balanced_write h).toEncloses, (balanced_write h).undivided⟩

theorem carries_str_iff : Carries (.str w) ↔ ¬EndsInBackslash w := by
  constructor
  · intro h he
    exact not_encloses_writeString he (carries_json_iff.mp h).1
  · intro h
    exact carries_of_no_backslash (by simpa using h)

theorem set_carries_iff (j : Tree) :
    (Carries j ↔ Encloses {} 0 (Json.write j) ∧ Undivided {} 0 (Json.write j)) ∧
      ((∀ s, j.Holds s → ¬EndsInBackslash s) → Carries j) ∧
      ∀ s, j = .str s → (Carries j ↔ ¬EndsInBackslash s) :=
  ⟨carries_json_iff, carries_of_no_backslash, by rintro s rfl; exact carries_str_iff⟩

-- Quotes of all kinds, backslashes, brackets, commas and the text of a command.
def satchel : Tree :=
  .obj [
    ("it's (a \\ \"key\"", .arr [.str "_.add('x', 1); // \x7d", .num (.int (-3)), .null, .arr []]),
    ("\\\x60,", .obj [("", .str ")\n]\t\\'"), ("deep", .bool true)])]

theorem satchel_carried : (∀ s, satchel.Holds s → ¬EndsInBackslash s) ∧ Carries satchel := by
  have h : ∀ s, satchel.Holds s → ¬EndsInBackslash s := by
    simp [satchel, or_imp, forall_and]
    decide
  exact ⟨h, (set_carries_iff satchel).2.1 h⟩

-- The text is `_.set('p', "\\");`: the quote behind the two backslashes is taken for an escaped one.
theorem lone_backslash_dropped :
    (Tree.str "\\").toJson = "\"\\\\\"" ∧ ¬Carries (.str "\\") :=
  ⟨by decide, mt carries_str_iff.mp (by decide)⟩

end Storyworld.Command
