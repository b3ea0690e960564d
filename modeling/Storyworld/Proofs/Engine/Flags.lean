import Storyworld.Engine.Batch
import Storyworld.Proofs.Operation.Atomicity
import Storyworld.Proofs.Operation.Effect

/-!
The flags in effect from one command to the next. They come from the schema, or from the configuration
as long as there is none, and what the root of the live tree declares goes over them. A command that
leaves the metadata of the root alone leaves them as they are, even if it is the one that makes the
schema.
-/

namespace Storyworld

namespace Tree

variable {t v w x : Tree} {step : Segment} {p rest : Path} {name : String}

-- What the root of a tree declares about a flag.
def declares (t : Tree) (name : String) : Option Bool :=
  ((t.field? Meta.key).bind (·.field? name)).bind asBool?

-- A write at a path that is there goes through an entry of a map, or past it.
theorem field?_set (h : t.get? (step :: rest) = some v) (name : String) :
    (t.set (step :: rest) w).field? name = t.field? name ∨
      ∃ x, t.field? name = some x ∧ x.get? rest = some v ∧
        (t.set (step :: rest) w).field? name = some (x.set rest w) := by
  have ⟨x, hx, hv⟩ := get?_cons_eq_some.mp h
  rw [set_cons_of_child hx]
  cases t
  case obj fields =>
    by_cases hn : name = step.name
    case pos => exact .inr ⟨x, hn ▸ hx, hv, hn ▸ Fields.get?_put_self⟩
    case neg => exact .inl <| Fields.get?_put_of_ne hn
  case arr items =>
    left
    unfold replaceChild
    cases step.index? <;> rfl
  all_goals cases hx

theorem asBool?_set_clean (h : t.get? p = some v) : (t.set p (Meta.clean v)).asBool? = t.asBool? := by
  cases p
  case nil =>
    cases h
    simp
  case cons step rest =>
    have ⟨x, hx, _⟩ := get?_cons_eq_some.mp h
    rw [set_cons_of_child hx]
    cases t
    case obj => rfl
    case arr =>
      unfold replaceChild
      cases step.index? <;> rfl
    all_goals cases hx

theorem asBool?_field?_set_clean (h : t.get? p = some v) (hn : name ≠ Meta.key) :
    ((t.set p (Meta.clean v)).field? name).bind asBool? = (t.field? name).bind asBool? := by
  cases p
  case nil =>
    cases h
    cases t <;> simp only [set_root, Meta.clean, field?, Meta.get?_cleanFields, if_neg hn]
    case obj fields => cases Fields.get? name fields <;> simp
  case cons step rest =>
    obtain he | ⟨x, hx, hv, he⟩ := field?_set h name
    · rw [he]
    · simp [he, hx, asBool?_set_clean hv]

-- Below the root, cleaning takes no declaration about a flag away.
theorem declares_set_clean (h : t.get? p = some v) (hp : p ≠ []) (hn : name ≠ Meta.key) :
    (t.set p (Meta.clean v)).declares name = t.declares name := by
  cases p
  case nil => exact absurd rfl hp
  case cons step rest =>
    unfold declares
    obtain he | ⟨x, hx, hv, he⟩ := field?_set h Meta.key
    · rw [he]
    · simp [he, hx, asBool?_field?_set_clean hv hn]

end Tree

namespace Flags

variable {flags : Flags} {t t' : Tree}

theorem overlay_eq :
    flags.overlay t =
      { strictTemplate := (t.declares "strictTemplate").getD flags.strictTemplate
        concatTemplateArray := (t.declares "concatTemplateArray").getD flags.concatTemplateArray
        strictSet := (t.declares "strictSet").getD flags.strictSet } :=
  rfl

theorem overlay_congr (h : ∀ name ≠ Meta.key, t'.declares name = t.declares name) :
    flags.overlay t' = flags.overlay t := by
  rw [overlay_eq, overlay_eq, h _ (by decide), h _ (by decide), h _ (by decide)]

theorem overlay_of_field? (h : t'.field? Meta.key = t.field? Meta.key) :
    flags.overlay t' = flags.overlay t :=
  overlay_congr fun name _ => by rw [Tree.declares, h, Tree.declares]

theorem overlay_overlay : (flags.overlay t).overlay t = flags.overlay t := by
  simp only [overlay_eq]
  cases t.declares "strictTemplate" <;> cases t.declares "concatTemplateArray" <;>
    cases t.declares "strictSet" <;> rfl

end Flags

namespace State

variable {s s' : State} {flags defaults : Flags} {op : Operation} {path container : Path}
  {paths : List Path}

-- The schema carries the flags that it carried, or else it is new and carries those in effect.
def Carries (s : State) (flags : Flags) (s' : State) : Prop :=
  s'.schema.map (·.flags) = s.schema.map (·.flags) ∨
    s.schema = none ∧ s'.schema.map (·.flags) = some (flags.overlay s'.stat)

theorem carries_of_schema (h : s'.schema = s.schema) : s.Carries flags s' :=
  .inl <| congrArg _ h

theorem carries_refreshSchema (s : State) (flags : Flags) (container : Path) :
    s.Carries flags (s.refreshSchema container flags) := by
  unfold refreshSchema
  split
  case h_1 hn => exact .inr ⟨hn, by simp [reconcile, flagsOr, hn]⟩
  case h_2 schema hs =>
    left
    split
    · rfl
    · dsimp only
      split
      · simp [hs]
      · split
        · generalize Schema.update? _ _ _ = root?
          cases root? <;> simp [hs]
        · rfl

theorem Carries.cleanAt (h : s.Carries flags s') (hp : path ≠ []) :
    s.Carries flags (s'.cleanAt path).2 := by
  cases hv : s'.stat.get? path
  case none => rwa [cleanAt_of_missing hv]
  case some v =>
    rw [cleanAt_eq hv]
    have ho : flags.overlay (s'.stat.set path (Meta.clean v)) = flags.overlay s'.stat :=
      Flags.overlay_congr fun _ hn => Tree.declares_set_clean hv hp hn
    exact h.imp id fun h => ⟨h.1, ho ▸ h.2⟩

theorem Carries.cleanAll (h : s.Carries flags s') (hp : ∀ path ∈ paths, path ≠ []) :
    s.Carries flags (s'.cleanAll paths) := by
  induction paths generalizing s'
  case nil => exact h
  case cons path paths ih =>
    have ⟨hn, hp⟩ := List.forall_mem_cons.mp hp
    exact ih (h.cleanAt hn) hp

theorem Fills.carries (h : s.Fills flags container s') : s.Carries flags s' := by
  cases h
  case mk v steps =>
    have hr := carries_refreshSchema { s with stat := s.stat.set container v } flags container
    exact State.Carries.cleanAll (s := s) hr fun path hm => by
      obtain ⟨step, _, rfl⟩ := List.mem_map.mp hm
      simp [Path.child]

end State

theorem Operation.carries_run (op : Operation) (flags : Flags) (s : State) :
    s.Carries flags (op.run flags s).2 := by
  cases h : (op.run flags s).1
  case error e =>
    obtain ⟨_, he⟩ | ⟨_, path, _, he⟩ := run_error h <;> exact State.carries_of_schema (by rw [he])
  case ok applied =>
    by_cases hi : op.IsInsertion
    case pos =>
      have ⟨_, _, hf⟩ := fills_run hi h
      exact hf.carries
    case neg => exact State.carries_of_schema (writes_run hi h).schema

theorem Command.carries_run (c : Command) (flags : Flags) (s : State) (dice : Dice) :
    s.Carries flags (c.run flags s dice).2.1 := by
  unfold run
  split
  · exact State.carries_of_schema rfl
  · exact Operation.carries_run _ flags s

namespace Engine

variable {σ : Type} {e : Engine σ} {s s' : State}

theorem flags_eq : e.flags s = ((s.schema.map (·.flags)).getD e.config.flags).overlay s.stat := by
  unfold flags State.flagsOr
  cases s.schema <;> rfl

theorem flags_of_carries (h : s.Carries (e.flags s) s')
    (hm : s'.stat.field? Meta.key = s.stat.field? Meta.key) : e.flags s' = e.flags s := by
  obtain hf | ⟨hn, hf⟩ := h
  · rw [flags_eq, hf, Flags.overlay_of_field? hm, ← flags_eq]
  · calc e.flags s'
      _ = ((e.flags s).overlay s'.stat).overlay s'.stat := by rw [flags_eq, hf, Option.getD_some]
      _ = (e.flags s).overlay s.stat := by rw [Flags.overlay_overlay, Flags.overlay_of_field? hm]
      _ = e.flags s := by rw [flags_eq, Flags.overlay_overlay]

-- No command changes the flags of the next one without the metadata of the root.
theorem flags_runCommand {c : Command} {dice : Dice}
    (hm : (e.runCommand c s dice).2.1.stat.field? Meta.key = s.stat.field? Meta.key) :
    e.flags (e.runCommand c s dice).2.1 = e.flags s :=
  flags_of_carries (c.carries_run _ s dice) hm

end Engine

end Storyworld
