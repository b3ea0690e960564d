import Storyworld.Operation.Run

/-!
Commands with a wrong number of arguments. A text holds none, but a host or a listener can make one up.
-/

namespace Storyworld

namespace Verb

variable {v : Verb} {n : Nat}

-- What is wrong behind the path if the number of the arguments is.
def miscount (v : Verb) : CommandError :=
  match v.canonical with
  | set => .invalidArguments .setCount
  | add => .invalidArguments .addCount
  | _ => .nothingToInsert

theorem miscount_eq_nothingToInsert_iff (h : v.accepts (n + 1) = false) :
    v.miscount = .nothingToInsert ↔ v.canonical = insert ∧ n = 0 := by
  cases v <;> simp_all [accepts, miscount, canonical]

theorem invalidArguments_of_miscount (h : v.miscount ≠ .nothingToInsert) :
    ∃ fault, v.miscount = .invalidArguments fault := by
  unfold miscount at h ⊢
  split at h
  case h_1 | h_2 => exact ⟨_, rfl⟩
  case h_3       => exact absurd rfl h

end Verb

namespace Operation

variable {v : Verb} {path : Path} {rest : List String} {dice : Dice} {e : CommandError}

-- Behind the path, a wrong number is all that can be wrong.
theorem read_eq_error_iff :
    read v path rest dice = .error e ↔ v.accepts (rest.length + 1) = false ∧ v.miscount = e := by
  unfold read
  split
  case h_1 hv | h_2 hv | h_3 hv | h_4 hv | h_5 hv | h_6 hv =>
    simp [Verb.accepts, Verb.miscount, hv]
  case h_7 hv h         => simpa [Verb.accepts, Verb.miscount, hv, List.length_eq_one_iff] using fun _ => h
  case h_8 | h_9 | h_10 => cases v <;> simp_all [Verb.accepts, Verb.miscount, Verb.canonical]

end Operation

namespace Command

variable {c : Command} {flags : Flags} {s : State} {dice : Dice} {path : Path} {e : CommandError}

-- An insertion that names its place, and nothing to insert there.
def NamesPlaceOnly (c : Command) : Prop :=
  c.verb.canonical = .insert ∧ c.args.length = 1 ∧ ∃ path, c.target = .ok path

theorem invalidArguments_of_target (h : c.target = .error e) : ∃ fault, e = .invalidArguments fault := by
  unfold target at h
  split at h
  case h_1 => exact ⟨_, (Except.error.inj h).symm⟩
  case h_2 =>
    split at h
    case h_1 => exact ⟨_, (Except.error.inj h).symm⟩
    case h_2 =>
      split at h
      case isTrue  => exact ⟨_, (Except.error.inj h).symm⟩
      case isFalse => cases h

theorem length_tail_of_target (h : c.target = .ok path) : c.args.tail.length + 1 = c.args.length := by
  unfold target at h
  cases ha : c.args
  case nil  => simp [ha] at h
  case cons => rfl

theorem namesPlaceOnly_iff (h : c.verb.accepts c.args.length = false) (ht : c.target = .ok path) :
    c.NamesPlaceOnly ↔ c.verb.miscount = .nothingToInsert := by
  have hl := length_tail_of_target ht
  rw [← hl] at h
  rw [Verb.miscount_eq_nothingToInsert_iff h, NamesPlaceOnly, ← hl]
  simp [ht]

theorem run_of_error (h : Operation.ofCommand c dice = .error e) : c.run flags s dice = (.error e, s, dice) := by
  rw [run, h]

-- Whatever the path and the values are, and whatever the path leads to.
theorem run_of_not_accepts (c : Command) (flags : Flags) (s : State) (dice : Dice)
    (h : c.verb.accepts c.args.length = false) :
    ∃ e, c.run flags s dice = (.error e, s, dice) ∧
      (e = .nothingToInsert ↔ c.NamesPlaceOnly) ∧
      ((∃ fault, e = .invalidArguments fault) ↔ ¬c.NamesPlaceOnly) := by
  cases ht : c.target
  case error e =>
    obtain ⟨fault, rfl⟩ := invalidArguments_of_target ht
    have hn : ¬c.NamesPlaceOnly := fun ⟨_, _, path, hp⟩ => by simp [ht] at hp
    refine ⟨.invalidArguments fault, run_of_error ?_, by simp [hn], by simp [hn]⟩
    rw [Operation.ofCommand, ht]
    rfl
  case ok path =>
    refine ⟨c.verb.miscount, run_of_error ?_, (namesPlaceOnly_iff h ht).symm, ?_⟩
    · rw [Operation.ofCommand, ht]
      exact Operation.read_eq_error_iff.mpr ⟨by rwa [length_tail_of_target ht], rfl⟩
    · rw [namesPlaceOnly_iff h ht]
      exact ⟨fun ⟨fault, hf⟩ hn => (by cases hf.symm.trans hn), Verb.invalidArguments_of_miscount⟩

-- A payment with one argument too many, and an insertion with one too few.
def payTwice : Command where
  verb := .add
  call := ""
  args := ["purse", "1", "2"]
  reason := ""

def packNothing : Command where
  verb := .insert
  call := ""
  args := ["bag"]
  reason := ""

def emptyHanded : State where
  stat := .obj [("bag", .arr []), ("purse", .num (.int 0))]

theorem payTwice_refused : payTwice.verb.accepts payTwice.args.length = false ∧
    ∃ fault, payTwice.run {} emptyHanded ⟨[], 0⟩ = (.error (.invalidArguments fault), emptyHanded, ⟨[], 0⟩) := by
  have h : payTwice.verb.accepts payTwice.args.length = false := rfl
  obtain ⟨e, hr, -, he⟩ := run_of_not_accepts payTwice {} emptyHanded ⟨[], 0⟩ h
  obtain ⟨fault, rfl⟩ := he.mpr fun hn => by cases hn.1
  exact ⟨h, fault, hr⟩

theorem packNothing_unanswered : packNothing.verb.accepts packNothing.args.length = false ∧
    packNothing.run {} emptyHanded ⟨[], 0⟩ = (.error .nothingToInsert, emptyHanded, ⟨[], 0⟩) :=
  ⟨rfl, run_of_error rfl⟩

end Command

end Storyworld
