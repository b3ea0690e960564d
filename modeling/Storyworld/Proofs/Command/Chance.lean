import Storyworld.Operation.Run
import Storyworld.Proofs.Command.Account
import Storyworld.Proofs.Command.Argument
import Storyworld.Proofs.Formula.Chance

/-!
Chance in commands. An argument in which the name of the random function does not occur has one value,
whatever the dice are, and a command of such arguments does one thing. Arguments are pieces of the text
that they are found in.
-/

namespace Storyworld

namespace Argument

variable {raw text : String}

-- The argument has one value, and nothing is drawn for it.
def Settled (raw : String) : Prop :=
  ∃ v, ∀ dice, value raw dice = (v, dice)

-- In a formula no call throws the dice; whatever else the argument is does not ask for them.
def Chanceless (raw : String) : Prop :=
  ∀ e, Formula.parse (Text.stripped raw) = .ok e → e.Every Formula.IsChanceless

theorem formula?_settled (h : ∀ e, Formula.parse text = .ok e → e.Every Formula.IsChanceless) :
    ∃ v?, ∀ dice, formula? text dice = (v?, dice) := by
  unfold formula?
  cases he : Formula.parse text
  case error => exact ⟨none, fun _ => rfl⟩
  case ok e =>
    dsimp only
    split
    · exact ⟨none, fun _ => rfl⟩
    · obtain ⟨result, hr⟩ := Formula.isSettled_eval (h e he)
      rw [hr]
      cases result
      case error => exact ⟨none, fun _ => rfl⟩
      case ok q  => exact ⟨ofQuantity? q, fun _ => rfl⟩

theorem Chanceless.settled (h : Chanceless raw) : Settled raw := by
  obtain ⟨v?, hv⟩ := formula?_settled h
  unfold Settled value
  simp only [hv]
  cases ((keyword? _).or (Tree.ofJson? _)).or (container? _)
  case none   => exact ⟨_, fun _ => rfl⟩
  case some v => exact ⟨v, fun _ => rfl⟩

theorem chanceless_of_not_infix (h : ¬"random".toList <:+: raw.toList) : Chanceless raw := by
  have ht : (Text.stripped raw).toList <:+: raw.toList := by
    rw [Text.stripped, String.toList_ofList]
    exact Text.trim_infix
  exact fun e he => Formula.chanceless_of_parse (fun hi => h (hi.trans ht)) he

end Argument

namespace Command

variable {c : Command} {q : Quoting} {depth : Int} {cur s : List Char} {arg text : String}
  {flags : Flags} {whole : Nat}

theorem infix_of_mem_splitFrom (h : arg ∈ splitFrom q depth cur s) : arg.toList <:+: cur ++ s := by
  induction s generalizing q depth cur
  case nil =>
    simp only [splitFrom] at h
    split at h
    · cases h
    · cases List.mem_singleton.mp h
      simpa using Text.trim_infix
  case cons d s ih =>
    have hn (depth : Int) (h : arg ∈ splitFrom (q.next d) depth (cur ++ [d]) s) :
        arg.toList <:+: cur ++ d :: s := by
      simpa using ih h
    rw [splitFrom] at h
    split at h
    · split at h
      · obtain rfl | h := List.mem_cons.mp h
        · rw [String.toList_ofList]
          exact Text.trim_infix.trans (List.prefix_append cur _).isInfix
        · exact (ih h).trans ⟨cur ++ [d], [], by simp⟩
      · exact hn _ h
    · exact hn _ h

theorem infix_of_mem_occurrences {o : Occurrence} (h : o ∈ occurrences whole s)
    (ha : arg ∈ o.command.args) : arg.toList <:+: s := by
  induction s using scan_induction
  case nil => simp [occurrences_nil] at h
  case step s cmd? rest hr ih =>
    rw [hr.occurrences] at h
    obtain h | h := List.mem_append.mp h
    case inr => exact (ih h).trans hr.suffix.isInfix
    case inl =>
      cases hr
      case taken v body inner behind reason hc _ _ _ =>
        cases List.mem_singleton.mp h
        have hi : arg.toList <:+: inner := infix_of_mem_splitFrom ha
        have hb : inner <:+: body := hc.split ▸ (List.prefix_append inner _).isInfix
        exact hi.trans <| hb.trans (List.suffix_append _ body).isInfix
      all_goals cases h

theorem infix_of_mem_args (hc : c ∈ extract text) (ha : arg ∈ c.args) : arg.toList <:+: text.toList := by
  obtain ⟨o, ho, rfl⟩ := List.mem_map.mp hc
  exact infix_of_mem_occurrences ho ha

-- The command asks for one operation, whatever the dice, or for none.
def Settled (c : Command) : Prop :=
  ∃ op? : Except CommandError Operation, ∀ dice, Operation.ofCommand c dice = op?.map (·, dice)

theorem read_settled {rest : List String} (h : ∀ arg ∈ rest, Argument.Settled arg) (verb : Verb)
    (path : Path) : ∃ op? : Except CommandError Operation,
      ∀ dice, Operation.read verb path rest dice = op?.map (·, dice) := by
  unfold Operation.read
  split
  case h_1 raw _ | h_2 raw _ _ =>
    obtain ⟨v, hv⟩ := h raw (by simp)
    exact ⟨.ok (.set path v), fun dice => by simp only [hv]; rfl⟩
  case h_3 => exact ⟨.error _, fun _ => rfl⟩
  case h_4 => exact ⟨.ok (.delete path), fun _ => rfl⟩
  case h_5 raw _ _ =>
    obtain ⟨v, hv⟩ := h raw (by simp)
    exact ⟨.ok (.deleteFrom path v), fun dice => by simp only [hv]; rfl⟩
  case h_6 raw _ =>
    obtain ⟨v, hv⟩ := h raw (by simp)
    exact ⟨.ok (.add path v), fun dice => by simp only [hv]; rfl⟩
  case h_7 => exact ⟨.error _, fun _ => rfl⟩
  case h_8 => exact ⟨.error _, fun _ => rfl⟩
  case h_9 raw _ _ _ =>
    obtain ⟨v, hv⟩ := h raw (by simp)
    exact ⟨.ok (.insert path v), fun dice => by simp only [hv]; rfl⟩
  case h_10 raw rawValue _ _ _ _ =>
    obtain ⟨selector, hs⟩ := h raw (by simp)
    obtain ⟨v, hv⟩ := h rawValue (by simp)
    exact ⟨.ok (.insertAt path selector v), fun dice => by simp only [hs, hv]; rfl⟩

theorem settled_of_args (h : ∀ arg ∈ c.args, Argument.Settled arg) : c.Settled := by
  unfold Settled Operation.ofCommand
  cases c.target
  case error e => exact ⟨.error e, fun _ => rfl⟩
  case ok path => exact read_settled (fun arg ha => h arg (List.mem_of_mem_tail ha)) c.verb path

theorem settled_of_not_infix (h : ∀ arg ∈ c.args, ¬"random".toList <:+: arg.toList) : c.Settled :=
  settled_of_args fun arg ha => (Argument.chanceless_of_not_infix (h arg ha)).settled

theorem Settled.run (h : c.Settled) (flags : Flags) (s : State) :
    ∃ result s', ∀ dice, c.run flags s dice = (result, s', dice) := by
  obtain ⟨_ | op, ho⟩ := h
  · exact ⟨.error _, s, fun dice => by simp only [Command.run, ho]; rfl⟩
  · exact ⟨(op.run flags s).1.map (·.because c.reason), (op.run flags s).2,
      fun dice => by simp only [Command.run, ho]; rfl⟩

end Command

end Storyworld
