import Storyworld.Proofs.Operation.Dispatch

/-!
What commands report. Every account is a phrase: there is a blank or an arrow in it, so it cannot be
taken for a marker.
-/

namespace Storyworld

-- It has a blank or an arrow.
def IsPhrase (account : String) : Prop :=
  ' ' ∈ account.toList ∨ '>' ∈ account.toList

theorem IsPhrase.ne_marker {account : String} (h : IsPhrase account) : account ≠ Meta.marker := by
  rintro rfl
  revert h
  unfold IsPhrase
  decide

def Applied.TellsPhrases (a : Applied) : Prop :=
  ∀ r ∈ a.accounts, IsPhrase r.2

theorem Applied.TellsPhrases.because {a : Applied} (h : a.TellsPhrases) (reason : String) :
    (a.because reason).TellsPhrases := by
  unfold Applied.because
  split
  case isTrue  => exact h
  case isFalse =>
    intro r hr
    obtain ⟨r, _, rfl⟩ := List.mem_map.mp hr
    exact .inl <| by simp [toString]

theorem tellsPhrases_one {path : Path} {account : String} {change : Option Change}
    (h : IsPhrase account) : (Applied.one path account change).TellsPhrases := by
  simpa [Applied.TellsPhrases, Applied.one] using h

namespace State

variable {s : State} {flags : Flags} {path container : Path} {slot : Path} {items : List Tree}
  {fields : Fields} {index : Option Nat} {key : String} {selector v : Tree}

theorem isPhrase_told (action : String) : IsPhrase (told action v) :=
  .inl <| by simp [told, toString]

theorem tellsPhrases_overwrite : (s.overwrite path slot v).1.TellsPhrases :=
  tellsPhrases_one <| .inr <| by simp [toString]

theorem Overwrites.tellsPhrases {r : Applied × State} (h : s.Overwrites path r) : r.1.TellsPhrases := by
  obtain ⟨_, _, _, rfl⟩ := h
  exact tellsPhrases_overwrite

theorem Unsets.tellsPhrases {r : Applied × State} (h : s.Unsets path r) : r.1.TellsPhrases := by
  obtain ⟨_, _, _, _, rfl⟩ := h
  exact tellsPhrases_one <| isPhrase_told _

theorem Strips.tellsPhrases {r : Applied × State} (h : s.Strips path r) : r.1.TellsPhrases := by
  obtain ⟨_, _, _, rfl⟩ := h
  exact tellsPhrases_one <| isPhrase_told _

theorem yields_insertItem : Yields (·.1.TellsPhrases) (s.insertItem flags container items index v) := by
  unfold insertItem
  split
  · exact yields_error
  · exact yields_ok <| tellsPhrases_one <| isPhrase_told _

theorem yields_insertKey : Yields (·.1.TellsPhrases) (s.insertKey flags container key v) := by
  unfold insertKey
  split
  · exact yields_error
  · exact yields_ok <| tellsPhrases_one <| isPhrase_told _

theorem isPhrase_cleanEntries {keys : List String} :
    ∀ r ∈ (s.cleanEntries container keys).1, IsPhrase r.2 := by
  induction keys generalizing s
  case nil => simp [cleanEntries]
  case cons key keys ih =>
    rw [cleanEntries]
    exact List.forall_mem_cons.mpr ⟨isPhrase_told _, ih⟩

theorem yields_mergeInto : Yields (·.1.TellsPhrases) (s.mergeInto flags container v) := by
  unfold mergeInto
  split
  · split
    · exact yields_error
    · exact yields_ok isPhrase_cleanEntries
  · exact yields_error

theorem inserts_tellsPhrases : s.Inserts flags fun _ r => r.1.TellsPhrases where
  item _ _ _ _ _    := yields_insertItem
  entry _ _ _ _ _   := yields_insertKey
  merge _ _         := yields_mergeInto
  made _ _ _ _ _ _  := yields_insertKey

end State

namespace Operation

variable {s : State} {flags : Flags} {op : Operation}

theorem yields_run : Yields Applied.TellsPhrases (op.run flags s).1 := by
  intro applied h
  cases op
  case set        => exact (State.overwrites_put _ (of_keeping_eq_ok h)).tellsPhrases
  case add        => exact (State.overwrites_add _ (of_keeping_eq_ok h)).tellsPhrases
  case delete     => exact (State.unsets_delete _ (of_keeping_eq_ok h)).tellsPhrases
  case deleteFrom => exact (State.strips_deleteFrom _ (of_keeping_eq_ok h)).tellsPhrases
  all_goals exact (inserts_run State.inserts_tellsPhrases h trivial).elim fun _ h => h.2

end Operation

theorem Command.yields_run {c : Command} {flags : Flags} {s : State} {dice : Dice} :
    Yields Applied.TellsPhrases (c.run flags s dice).1 := by
  unfold Command.run
  split
  · exact yields_error
  case h_2 op dice' _ =>
    have h : Yields Applied.TellsPhrases (op.run flags s).1 := Operation.yields_run
    generalize op.run flags s = run at h ⊢
    obtain ⟨_ | a, s'⟩ := run
    · exact yields_error
    · exact yields_ok ((h a rfl).because c.reason)

end Storyworld
