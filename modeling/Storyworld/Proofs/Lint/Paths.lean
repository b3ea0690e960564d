import Storyworld.Lint
import Storyworld.Proofs.Command.Account
import Storyworld.Proofs.Command.Arity
import Storyworld.Proofs.Insertion.Site
import Storyworld.Proofs.Path.RoundTrip

/-!
The commands whose paths no state can have. Every state refuses them, and a check of the text reports
them, except for those whose path is made of blanks alone: these are the root to a state, which has had
the blanks taken off, and no empty path to the check, which has not.
-/

namespace Storyworld

/-! ## Texts of the root -/

namespace Text

variable {s : List Char}

theorem trim_eq_nil_iff : trim s = [] ↔ ∀ c ∈ s, isBlank c := by
  have ht : trim s = [] ↔ ∀ c ∈ s.dropWhile isBlank, isBlank c := by simp [trim, trimEnd, trimStart]
  refine ht.trans <| Iff.trans ?_ List.dropWhile_eq_nil_iff
  cases h : s.dropWhile isBlank
  case nil => simp
  case cons c r =>
    have hb := List.head?_dropWhile_not isBlank s
    rw [h] at hb
    exact iff_of_false (fun ha => by simp_all) (List.cons_ne_nil c r)

end Text

namespace Path

variable {path : Path} {step : Segment} {name raw s : List Char} {quote : Char} {text : String}

-- A step in brackets is there, whatever follows it.
theorem yields_cons_ne_nil {r : Except Flaw Path} : Yields (· ≠ []) ((step :: ·) <$> r) :=
  yields_map (r := r) fun _ => List.cons_ne_nil _ _

theorem unquoted_ne_nil : Yields (· ≠ []) (unquoted raw s) := by
  induction s generalizing raw
  case nil =>
    rw [unquoted]
    split <;> exact yields_error
  case cons c s ih =>
    rw [unquoted]
    split
    · split
      case h_1 => exact yields_error
      case h_2 => exact yields_cons_ne_nil
    · exact ih

theorem closing_ne_nil : Yields (· ≠ []) (closing step s) := by
  cases s
  case nil => exact yields_error
  case cons c s =>
    rw [closing]
    split
    · exact yields_cons_ne_nil
    · exact yields_error

theorem quoted_ne_nil : Yields (· ≠ []) (quoted quote name s) := by
  induction h : s.length using Nat.strongRecOn generalizing s name
  case ind n ih =>
    subst h
    rw [quoted.eq_def]
    split
    case h_1 => exact yields_error
    case h_2 c s =>
      split
      · exact closing_ne_nil
      split
      · cases s
        case nil      => exact yields_error
        case cons d s => exact ih s.length (by simp only [List.length_cons]; omega) rfl
      · exact ih s.length (by simp) rfl

theorem opened_ne_nil : Yields (· ≠ []) (opened s) := by
  cases s
  case nil => exact yields_error
  case cons c s =>
    rw [opened]
    split
    · exact quoted_ne_nil
    split
    · exact yields_error
    · exact unquoted_ne_nil

theorem named_ne_nil (h : ¬name.isEmpty) : named name ≠ [] := by
  simp [named, h]

-- Wherever a name may start, a step has to come.
theorem bare_ne_nil : Yields (· ≠ []) (bare name s) := by
  induction s generalizing name
  case nil =>
    rw [bare]
    split
    case isTrue    => exact yields_error
    case isFalse h => exact yields_ok (named_ne_nil h)
  case cons c s ih =>
    rw [bare]
    split
    · split
      case isTrue    => exact yields_error
      case isFalse h => exact yields_map fun p => List.append_ne_nil_of_left_ne_nil (named_ne_nil h) p
    split
    · exact opened_ne_nil.map fun p hp => List.append_ne_nil_of_right_ne_nil _ hp
    split
    · exact yields_error
    · exact ih

theorem parse_eq_root_iff : parse text = .ok root ↔ ∀ c ∈ text.toList, Text.isBlank c := by
  rw [parse_eq_ok, ← Text.trim_eq_nil_iff, steps]
  cases h : Text.trim text.toList
  case nil      => simp [root]
  case cons c s => simpa [root] using fun hr => bare_ne_nil _ hr rfl

end Path

/-! ## Commands without a place -/

-- The faults that a path has by itself.
inductive ArgumentFault.AboutPath : ArgumentFault → Prop where
  | malformed (e : Path.Malformed) : AboutPath (.malformed e)
  | emptyPath : AboutPath .emptyPath

namespace Operation

variable {op : Operation} {flags : Flags} {fault : ArgumentFault} {p : Path} {step : Segment}

-- Nothing stands in a state that is null, and what it says is that nothing does.
theorem run_null (h : op.path = p.child step) :
    (op.run flags { stat := .null }).1 ≠ .error (.invalidArguments fault) := by
  have hn : Tree.null.get? (p.child step) = none := by
    rw [Tree.get?_child]
    cases p <;> simp [Tree.child?]
  have hh : Tree.null.has (p.child step) = false := by simp [Tree.has, hn]
  cases op <;> simp only [path] at h <;> subst h
  case set => simp [run, keeping, State.put, State.slot, hn, bind, Except.bind]
  case add => simp [run, keeping, State.add, State.slot, hn, bind, Except.bind]
  case delete => simp [run, keeping, State.delete, hh, bind, Except.bind, throw, throwThe, MonadExceptOf.throw]
  case deleteFrom => simp [run, keeping, State.deleteFrom, hn]
  -- What would be inserted would have to be so into the null at the root.
  case insert =>
    have hd : (p.child step).dropLast = p := List.dropLast_concat
    have hl : (p.child step).getLast? = some step := List.getLast?_concat
    cases p <;> simp [run, keeping, State.insert, State.insertNew, hn, hd, hl, Tree.child?, throw, throwThe,
      MonadExceptOf.throw]
  case insertAt =>
    have hd : (p.child step).dropLast = p := List.dropLast_concat
    have hl : (p.child step).getLast? = some step := List.getLast?_concat
    cases p <;> simp [run, keeping, State.makeMap, State.insertKey, State.refuses, State.schemaAt?, hn, hd, hl, Tree.has,
      Tree.child?, throw, throwThe, MonadExceptOf.throw, bind, Except.bind, pure, Except.pure]

end Operation

namespace Command

variable {c : Command} {text : String}

-- The text that stands for the path.
def pathText (c : Command) : String :=
  Argument.pathText (c.args.headD "")

-- No path comes of the text, or only that of the root.
def Placeless (c : Command) : Prop :=
  ∀ path, Path.parse c.pathText = .ok path → path = .root

-- Whatever the state, the flags and the dice are, it is for the path that the command fails.
def RefusedForPath (c : Command) : Prop :=
  ∃ fault, fault.AboutPath ∧
    ∀ flags s dice, c.run flags s dice = (.error (.invalidArguments fault), s, dice)

-- Blanks are there where the path should be.
def HasBlankPath (c : Command) : Prop :=
  c.pathText ≠ "" ∧ ∀ x ∈ c.pathText.toList, Text.isBlank x

theorem target_of_accepts (h : c.verb.accepts c.args.length) :
    c.target = match Path.parse c.pathText with
      | .error e => .error (.invalidArguments (.malformed e))
      | .ok path => if path.isEmpty then .error (.invalidArguments .emptyPath) else .ok path := by
  unfold target pathText
  match ha : c.args with
  | [] => cases hv : c.verb <;> simp [ha, hv, Verb.accepts, Verb.canonical] at h
  | raw :: _ => cases hp : Path.parse (Argument.pathText raw) <;> simp [hp]

theorem exists_fault_of_placeless (h : c.verb.accepts c.args.length) (hp : c.Placeless) :
    ∃ fault, fault.AboutPath ∧ c.target = .error (.invalidArguments fault) := by
  rw [target_of_accepts h]
  cases hr : Path.parse c.pathText
  case error e => exact ⟨_, .malformed e, rfl⟩
  case ok path =>
    obtain rfl := hp path hr
    exact ⟨_, .emptyPath, rfl⟩

theorem exists_target_of_not_placeless (h : c.verb.accepts c.args.length) (hp : ¬c.Placeless) :
    ∃ path, c.target = .ok path := by
  simp only [Placeless, not_forall] at hp
  obtain ⟨path, hr, hn⟩ := hp
  refine ⟨path, ?_⟩
  have hn : path.isEmpty = false := by simpa [Path.root] using hn
  rw [target_of_accepts h, hr]
  simp [hn]

theorem refusedForPath_iff (h : c.verb.accepts c.args.length) : c.RefusedForPath ↔ c.Placeless := by
  constructor
  case mpr =>
    intro hp
    obtain ⟨fault, hf, ht⟩ := exists_fault_of_placeless h hp
    refine ⟨fault, hf, fun flags s dice => run_of_error ?_⟩
    rw [Operation.ofCommand, ht]
    rfl
  case mp =>
    rintro ⟨fault, hf, hr⟩
    by_contra hp
    obtain ⟨path, ht⟩ := exists_target_of_not_placeless h hp
    have hr := hr {} { stat := .null } ⟨[], 0⟩
    unfold run at hr
    cases ho : Operation.ofCommand c ⟨[], 0⟩ <;> simp only [ho] at hr
    case error e =>
      -- Only the number of the arguments could be wrong behind the path.
      rw [Operation.ofCommand, ht] at ho
      obtain ⟨hc, -⟩ := Operation.read_eq_error_iff.mp ho
      rw [length_tail_of_target ht, h] at hc
      cases hc
    case ok r =>
      obtain ⟨hp, -⟩ := ofCommand_eq_ok ho
      obtain ⟨p, step, hs⟩ := exists_child_of_target hp
      have he := congrArg Prod.fst hr
      have hn : (r.1.run {} { stat := .null }).1 ≠ .error (.invalidArguments fault) := Operation.run_null hs
      refine absurd ?_ hn
      cases hx : (r.1.run {} { stat := .null }).1 <;> simp_all [Except.map]

-- One text is one call.
theorem args_eq_of_call {text : String} {c d : Command} (hc : c ∈ extract text) (hd : d ∈ extract text)
    (h : c.call = d.call) : c.args = d.args := by
  obtain ⟨found, he, ha⟩ := extract_accounts text
  rw [he] at hc hd
  obtain ⟨o, ho, rfl⟩ := List.mem_map.mp hc
  obtain ⟨p, hp, rfl⟩ := List.mem_map.mp hd
  obtain ⟨inner, behind, hk⟩ := ha.sound o ho
  obtain ⟨inner', behind', hl⟩ := ha.sound p hp
  have hf := hk.form.symm.trans ((congrArg String.toList h).trans hl.form)
  rw [List.append_assoc, List.append_assoc] at hf
  obtain ⟨-, hi⟩ := opening_inj hf
  rw [hk.args, hl.args, List.append_cancel_right hi]

theorem accepts_of_mem_extract {text : String} {c : Command} (hc : c ∈ extract text) :
    c.verb.accepts c.args.length := by
  obtain ⟨found, he, ha⟩ := extract_accounts text
  rw [he] at hc
  obtain ⟨o, ho, rfl⟩ := List.mem_map.mp hc
  obtain ⟨inner, behind, hk⟩ := ha.sound o ho
  exact hk.arity

end Command

/-! ## What the check says -/

namespace Lint

variable {c d : Command} {fault : Fault} {text : String}

-- The call whose path is at fault.
def Fault.call? : Fault → Option String
  | malformedCalls _ => none
  | malformedPath call _ => some call
  | emptyPath call => some call

theorem pathFault?_eq_some_iff :
    pathFault? c = some fault ↔
      (∃ e, Path.parse c.pathText = .error e ∧ .malformedPath c.call e = fault) ∨
      c.pathText = "" ∧ .emptyPath c.call = fault := by
  have h₀ : Path.parse "" = .ok .root := Path.parse_eq_root_iff.mpr (by simp)
  unfold pathFault? Command.pathText
  dsimp only
  generalize Argument.pathText (c.args.headD "") = s
  cases hr : Path.parse s
  case error e =>
    have hs : s ≠ "" := by
      rintro rfl
      cases h₀.symm.trans hr
    simp [hs]
  case ok path => simp

theorem exists_pathFault?_iff : (∃ fault, pathFault? c = some fault) ↔ c.Placeless ∧ ¬c.HasBlankPath := by
  simp only [pathFault?_eq_some_iff, exists_or, exists_and_left]
  unfold Command.Placeless Command.HasBlankPath
  rw [← Path.parse_eq_root_iff]
  generalize c.pathText = s
  by_cases hs : s = ""
  case pos =>
    have h₀ : Path.parse "" = .ok .root := Path.parse_eq_root_iff.mpr (by simp)
    subst hs
    simp [h₀]
  case neg => cases Path.parse s <;> simp [hs]

theorem call?_of_pathFault? (h : pathFault? c = some fault) : fault.call? = some c.call := by
  obtain ⟨e, -, rfl⟩ | ⟨-, rfl⟩ := pathFault?_eq_some_iff.mp h <;> rfl

-- Commands of one call have their faults in common, but for where they stand.
theorem exists_fault_iff (hc : c ∈ Command.extract text) :
    (∃ fault ∈ (check text).faults, fault.call? = some c.call) ↔ ∃ fault, pathFault? c = some fault := by
  constructor
  case mpr =>
    rintro ⟨fault, hf⟩
    refine ⟨fault, ?_, call?_of_pathFault? hf⟩
    exact List.mem_append_right _ (List.mem_filterMap.mpr ⟨c, hc, hf⟩)
  case mp =>
    rintro ⟨fault, hm, hf⟩
    obtain hm | hm := List.mem_append.mp hm
    · split at hm
      · cases hm
      · obtain rfl := List.mem_singleton.mp hm
        cases hf
    · obtain ⟨d, hd, hp⟩ := List.mem_filterMap.mp hm
      have he : d.call = c.call := Option.some.inj ((call?_of_pathFault? hp).symm.trans hf)
      have hx : c.pathText = d.pathText := by
        rw [Command.pathText, Command.pathText, Command.args_eq_of_call hc hd he.symm]
      rw [exists_pathFault?_iff]
      have := exists_pathFault?_iff.mp ⟨fault, hp⟩
      unfold Command.Placeless Command.HasBlankPath at this ⊢
      rwa [hx]

theorem path_faults (text : String) (c : Command) (hc : c ∈ Command.extract text) :
    (c.RefusedForPath ↔ c.Placeless) ∧
    ((∃ fault ∈ (check text).faults, fault.call? = some c.call) ↔ c.RefusedForPath ∧ ¬c.HasBlankPath) := by
  have ha := Command.refusedForPath_iff (Command.accepts_of_mem_extract hc)
  exact ⟨ha, by rw [exists_fault_iff hc, exists_pathFault?_iff, ha]⟩

-- Two dots, between which a name is missing, and two blanks in quotes.
def dotted : Command where
  verb := .add
  call := "_.add(a..b, 1);"
  args := ["a..b", "1"]
  reason := ""

def blanked : Command where
  verb := .set
  call := "_.set('  ', 1);"
  args := ["'  '", "1"]
  reason := ""

-- Every state refuses the two dots, and the check reports the call.
theorem dotted_is_faulted :
    dotted ∈ Command.extract dotted.call ∧ dotted.RefusedForPath ∧
      ∃ fault ∈ (check dotted.call).faults, fault.call? = some dotted.call := by
  have hm : dotted ∈ Command.extract dotted.call := by decide +kernel
  have ⟨hr, hf⟩ := path_faults dotted.call dotted hm
  have he : Path.parse dotted.pathText = .error ⟨"a..b", .emptySegment⟩ := by decide +kernel
  have hp : dotted.RefusedForPath := hr.mpr fun path h => by cases he.symm.trans h
  have hb : ¬dotted.HasBlankPath := fun h => absurd (h.2 'a') (by decide +kernel)
  exact ⟨hm, hp, hf.mpr ⟨hp, hb⟩⟩

-- Every state refuses the blanks, and no fault is found.
theorem blanked_passes :
    blanked ∈ Command.extract blanked.call ∧ blanked.RefusedForPath ∧ (check blanked.call).faults = [] := by
  have hp : Path.parse blanked.pathText = .ok .root :=
    Path.parse_eq_root_iff.mpr (List.all_eq_true.mp (by decide +kernel))
  refine ⟨by decide +kernel, (Command.refusedForPath_iff (by decide)).mpr fun path h => ?_, by decide +kernel⟩
  exact Except.ok.inj (h.symm.trans hp)

end Lint

end Storyworld
