import Storyworld.Proofs.Insertion.Outcome

/-!
Failures: a command that fails leaves the state as it was. The exception are insertions that make a
map for their key before the schema refuses the key; of those the empty map stays.
-/

namespace Storyworld

namespace State

-- An insertion at a selector strands where nothing stands at its path, the parent is there and takes
-- the path's last step, but the schema already describes the missing map and keeps the key out of it.
def Strands (s : State) : Operation → Prop
  | .insertAt path selector _ =>
    s.stat.get? path = none ∧ s.stat.has path.dropLast ∧
      (∀ last, path.getLast? = some last → s.refuses path.dropLast last.name = false) ∧
      s.refuses path selector.display
  | _ => False

end State

namespace Operation

variable {s : State} {op : Operation} {flags : Flags} {e : CommandError} {path : Path}
  {selector v : Tree} {r : Except CommandError (Applied × State)}

theorem of_keeping_eq_error (h : (keeping s r).1 = .error e) : (keeping s r).2 = s ∧ r = .error e := by
  cases r <;> cases h
  exact ⟨rfl, rfl⟩

-- Behind `makeMap` only the key can be refused, and the map has been made by then.
theorem run_insertAt_of_missing (hp : s.stat.get? path = none)
    (h : ((insertAt path selector v).run flags s).1 = .error e) :
    (¬s.Strands (insertAt path selector v) ∧ ((insertAt path selector v).run flags s).2 = s) ∨
      (s.Strands (insertAt path selector v) ∧
        ((insertAt path selector v).run flags s).2 =
          { s with stat := s.stat.set path .emptyMap }) := by
  have hh : s.stat.has path = false := by simp [Tree.has, hp]
  simp only [run, hh, Bool.false_eq_true, if_false] at h ⊢
  cases hm : s.makeMap path
  case error =>
    refine .inl ⟨fun ⟨_, hd, hr, _⟩ => ?_, rfl⟩
    cases hm.symm.trans <| State.makeMap_eq_ok.mpr ⟨hd, hr, rfl⟩
  case ok s₁ =>
    obtain ⟨hd, hr, rfl⟩ := State.makeMap_eq_ok.mp hm
    simp only [hm] at h
    have ⟨hs, he⟩ := of_keeping_eq_error h
    have hk := State.refuses_of_insertKey_eq_error he
    exact .inr ⟨⟨hp, hd, hr, hk⟩, hs⟩

theorem run_error (h : (op.run flags s).1 = .error e) :
    (¬s.Strands op ∧ (op.run flags s).2 = s) ∨
      (s.Strands op ∧ ∃ path, s.stat.get? path = none ∧
        (op.run flags s).2 = { s with stat := s.stat.set path .emptyMap }) := by
  cases op
  case insertAt path selector v =>
    cases hp : s.stat.get? path
    case none =>
      obtain h | ⟨hs, he⟩ := run_insertAt_of_missing hp h
      · exact .inl h
      · exact .inr ⟨hs, path, hp, he⟩
    case some t =>
      have hh : s.stat.has path := by simp [Tree.has, hp]
      simp only [run, hh, if_true] at h ⊢
      exact .inl ⟨fun ⟨hn, _⟩ => by simp [hp] at hn, (of_keeping_eq_error h).1⟩
  all_goals exact .inl ⟨id, (of_keeping_eq_error h).1⟩

end Operation

namespace Command

variable {c : Command} {s : State} {flags : Flags} {dice : Dice} {e : CommandError}

-- After a failure the schema and the views are the old ones in any case. The live tree is the old one
-- too, unless the insertion strands.
theorem run_error_keeps_iff (h : (c.run flags s dice).1 = .error e) :
    (∃ stat, (c.run flags s dice).2.1 = { s with stat }) ∧
      ((c.run flags s dice).2.1 = s ↔
        ∀ op dice', Operation.ofCommand c dice = .ok (op, dice') → ¬s.Strands op) := by
  unfold run at h ⊢
  cases ho : Operation.ofCommand c dice
  case error => exact ⟨⟨s.stat, rfl⟩, by simp⟩
  case ok a =>
    have ⟨op, dice'⟩ := a
    simp only [ho] at h ⊢
    have he : (op.run flags s).1 = .error e := by
      cases hr : (op.run flags s).1 <;> simp_all [Except.map]
    obtain ⟨hn, hs⟩ | ⟨hn, path, hp, hs⟩ := Operation.run_error he
    · rw [hs]
      exact ⟨⟨s.stat, rfl⟩, by simpa using hn⟩
    · rw [hs]
      -- Something stands at the path now, where nothing did.
      have hne : s.stat.set path .emptyMap ≠ s.stat := by
        intro hc
        have := hc ▸ Tree.get?_set_self (t := s.stat) (p := path) (v := .emptyMap)
        simp [hp] at this
      refine ⟨⟨_, rfl⟩, fun hc => absurd (congrArg State.stat hc) hne, fun hc => ?_⟩
      exact absurd hn (hc op dice' rfl)

-- A world without towns, of which the schema admits a single one.
def townless : State where
  stat := .obj [("world", .obj [])]
  schema := some
    { root := .object [⟨"world", none, .object
        [⟨"towns", none, .object [⟨"ashford", none, .string⟩] {}⟩] { extensible := true }⟩] {} }

def foundBree : Command where
  verb := .insert
  call := ""
  args := ["world.towns", "\"bree\"", "\"village\""]
  reason := ""

-- The town is refused, and yet the world has got an empty map of towns.
theorem townless_foundBree_strands :
    (foundBree.run {} townless ⟨[], 0⟩).1 =
        .error (.schemaViolation [.key "world", .key "towns"] (.closedMap "bree")) ∧
      (foundBree.run {} townless ⟨[], 0⟩).2.1 ≠ townless := by
  refine ⟨rfl, fun h => ?_⟩
  have : Tree.obj [("world", .obj [("towns", .obj [])])] = townless.stat := congrArg State.stat h
  exact absurd this (by decide)

-- Of a town that the schema does not forbid, but that is to lie in no world, nothing stays.
def foundAshford : Command where
  verb := .insert
  call := ""
  args := ["moon.towns", "\"ashford\"", "\"village\""]
  reason := ""

theorem townless_foundAshford_keeps :
    (foundAshford.run {} townless ⟨[], 0⟩).1 = .error (.parentNotFound [.key "moon", .key "towns"]) ∧
      (foundAshford.run {} townless ⟨[], 0⟩).2.1 = townless := by
  have h : (foundAshford.run {} townless ⟨[], 0⟩).1 =
      .error (.parentNotFound [.key "moon", .key "towns"]) := rfl
  refine ⟨h, (run_error_keeps_iff h).2.mpr fun op dice' ho hs => ?_⟩
  cases ho
  exact absurd hs.2.1 (by decide)

end Command

end Storyworld
