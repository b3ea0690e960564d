import Storyworld.Engine.Script
import Storyworld.Proofs.Schema.Description

/-!
What a batch leaves behind. Whatever commands and listeners have done, a batch that has changed
something ends with a reading of the live tree and its cleaning.
-/

namespace Storyworld

namespace Engine

variable {σ : Type} {e : Engine σ} {text : String} {s s' : State} {dice dice' : Dice} {host host' : σ}
  {r : Report} {defaults : Flags}

theorem settle_bare : Meta.Bare (s.settle defaults).stat :=
  Meta.bare_clean s.stat

theorem settle_describes :
    ∃ schema, (s.settle defaults).schema = some schema ∧
      schema.root.Describes (s.settle defaults).stat :=
  ⟨_, rfl, Schema.infer_describes_clean⟩

-- The last thing that a batch does to the state.
theorem exists_settle_of_batch (hb : (e.batch text s dice).run host = ((r, s', dice'), host'))
    (hm : r.modified) : ∃ ended : State, s' = ended.settle e.config.flags := by
  simp only [batch, StateT.run_bind, StateT.run_pure] at hb
  cases hb
  exact ⟨_, if_pos hm⟩

theorem batch_settles (hb : (e.batch text s dice).run host = ((r, s', dice'), host'))
    (hm : r.modified) :
    Meta.Bare s'.stat ∧ ∃ schema, s'.schema = some schema ∧ schema.root.Describes s'.stat := by
  obtain ⟨ended, rfl⟩ := exists_settle_of_batch hb hm
  exact ⟨settle_bare, settle_describes⟩

-- Declares the diary open again when each batch is over.
def archivist : Script where
  name := "archivist"
  writes := [(.ended, [.key "diary", .index 0], .str Meta.marker),
    (.ended, [.key "$meta"], .obj [("extensible", .bool true)])]

def diary : State where
  stat := .obj [("mood", .str "grim"),
    ("diary", .arr [.str "", .obj [("$arrayMeta", .bool true)], .str "dawn"])]

def archive : Engine Log where
  listeners := [archivist.listener]

def calmed : Report × State × Dice :=
  ((archive.batch "_.set(mood,\"calm\");" diary ⟨[], 0⟩).run []).1

-- The marker in the diary and the two declarations are gone, and the schema knows the day.
theorem calmed_settles :
    calmed.1.modified ∧
      calmed.2.1.stat = .obj [("mood", .str "calm"), ("diary", .arr [.str "dawn"])] ∧
      Meta.Bare calmed.2.1.stat ∧
      ∃ schema, calmed.2.1.schema = some schema ∧ schema.root.Describes calmed.2.1.stat := by
  have hm : calmed.1.modified := by decide +kernel
  exact ⟨hm, by decide +kernel, batch_settles rfl hm⟩

end Engine

end Storyworld
