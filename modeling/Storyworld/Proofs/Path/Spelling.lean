import Storyworld.Proofs.Path.RoundTrip
import Storyworld.Proofs.Text.Escaped

/-!
Paths spelled out: every step in brackets, every name in quotes with a backslash before the quotes and
backslashes in it. Unlike the text that messages show, this one comes back whatever the names are.
-/

namespace Storyworld.Path

variable {path other : Path} {step : Segment}

def spellStep : Segment → List Char
  | .key k => '[' :: '"' :: (k.toList.flatMap Text.escaped ++ ['"', ']'])
  | .index n => '[' :: (Nat.toDigits 10 n ++ [']'])

def spell (path : Path) : String :=
  .ofList (path.flatMap spellStep)

-- The positions that a text can name.
def WithinBounds (path : Path) : Prop :=
  ∀ n, .index n ∈ path → n < wordBound

-- Behind its opening bracket a step is read, and then what follows its closing one.
theorem opened_spellStep (h : ∀ n, step = .index n → n < wordBound) :
    ∃ s, spellStep step = '[' :: s ∧ ∀ rest, opened (s ++ rest) = (step :: ·) <$> closed rest := by
  cases step
  case index n =>
    refine ⟨_, rfl, fun rest => ?_⟩
    rw [List.append_assoc]
    exact opened_index (h n rfl)
  case key k =>
    refine ⟨_, rfl, fun rest => ?_⟩
    have hr : quoted '"' [] (k.toList.flatMap Text.escaped ++ '"' :: ']' :: rest) =
        closing (.key (.ofList ([] ++ k.toList))) (']' :: rest) := quoted_of_quotedBody Token.quotedBody_escaped
    simp [opened, hr, closing]

-- By induction on the path: a closing bracket stands before every step but the first.
theorem closed_spell (h : WithinBounds path) : closed (path.flatMap spellStep) = .ok path := by
  induction path
  case nil => rfl
  case cons step path ih =>
    obtain ⟨s, hs, ho⟩ := opened_spellStep fun n (hn : step = .index n) => h n (hn ▸ List.mem_cons_self)
    have hp : closed (path.flatMap spellStep) = .ok path := ih fun n hn => h n (List.mem_cons_of_mem _ hn)
    rw [List.flatMap_cons, hs, List.cons_append, closed]
    simp [ho, hp]

theorem steps_spell (h : WithinBounds path) : steps (path.flatMap spellStep) = .ok path := by
  cases path
  case nil => rfl
  case cons step path =>
    obtain ⟨s, hs, ho⟩ := opened_spellStep fun n (hn : step = .index n) => h n (hn ▸ List.mem_cons_self)
    have hp : closed (path.flatMap spellStep) = .ok path :=
      closed_spell fun n hn => h n (List.mem_cons_of_mem _ hn)
    rw [List.flatMap_cons, hs, List.cons_append, steps, if_neg (by simp), bare]
    simp [ho, hp, named]

theorem spellStep_eq (step : Segment) : ∃ s, spellStep step = '[' :: (s ++ [']']) := by
  cases step
  case key k   => exact ⟨'"' :: (k.toList.flatMap Text.escaped ++ ['"']), by simp [spellStep]⟩
  case index n => exact ⟨_, rfl⟩

theorem trim_spell : Text.trim (path.flatMap spellStep) = path.flatMap spellStep := by
  by_cases hp : path = []
  case pos => exact hp ▸ rfl
  case neg =>
    obtain ⟨s, hs⟩ := spellStep_eq (path.head hp)
    obtain ⟨r, hr⟩ := spellStep_eq (path.getLast hp)
    have ht : Text.Trimmed (path.flatMap spellStep) := by
      constructor
      case ne_nil =>
        rw [← List.cons_head_tail hp, List.flatMap_cons, hs]
        exact List.cons_ne_nil _ _
      case first =>
        rw [← List.cons_head_tail hp, List.flatMap_cons, hs]
        rintro _ ⟨⟩
        rfl
      case last =>
        rw [← List.dropLast_concat_getLast hp, List.flatMap_append, List.flatMap_singleton, hr]
        rw [← List.cons_append, ← List.append_assoc, List.getLast?_concat]
        rintro _ ⟨⟩
        rfl
    exact (Text.trim_eq_iff ht.ne_nil).mpr ht

theorem parse_spelled (h : WithinBounds path) : parse (spell path) = .ok path := by
  rw [parse_eq_ok, spell, String.toList_ofList, trim_spell]
  exact steps_spell h

-- Every place can be named, and no text names two of them.
theorem parse_spell (h : WithinBounds path) :
    parse (spell path) = .ok path ∧ ∀ other, WithinBounds other → spell other = spell path → other = path := by
  refine ⟨parse_spelled h, fun other ho he => ?_⟩
  have hp := (parse_spelled ho).symm.trans (he ▸ parse_spelled h)
  exact Except.ok.inj hp

-- A shelf without a name, a jar that is named by its label, and its place.
def pickle : Path :=
  [.key "", .key " \"pickled\".[\\\n] ", .index 0, .key "0"]

theorem pickle_spelled :
    spell pickle = "[\"\"][\" \\\"pickled\\\".[\\\\\n] \"][0][\"0\"]" ∧ WithinBounds pickle ∧
      parse (spell pickle) = .ok pickle ∧ spell [.index 0, .key "0"] ≠ spell [.key "0", .index 0] := by
  have h : WithinBounds pickle := by
    intro n hn
    simp only [pickle, List.mem_cons, reduceCtorEq, Segment.index.injEq, List.not_mem_nil, or_false,
      false_or] at hn
    exact hn ▸ by decide
  have h₁ : WithinBounds [.key "0", .index 0] := by
    intro n hn
    simp only [List.mem_cons, reduceCtorEq, Segment.index.injEq, List.not_mem_nil, or_false, false_or] at hn
    exact hn ▸ by decide
  have h₂ : WithinBounds [.index 0, .key "0"] := fun n hn => h₁ n (by simpa using hn)
  refine ⟨by decide, h, (parse_spell h).1, fun he => ?_⟩
  exact absurd ((parse_spell h₁).2 _ h₂ he) (by decide)

end Storyworld.Path
