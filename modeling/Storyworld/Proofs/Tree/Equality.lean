import Storyworld.Proofs.Schema.Proper
import Storyworld.Tree.Value

/-!
Equality of values. A tree equals itself, if every key stands once in its map: where one stands twice,
its second value is compared with the first.
-/

namespace Storyworld

theorem Number.same_self (n : Number) : n.same n := by
  simp [same]

theorem Fields.get?_of_mem {fields : Fields} {key : String} {v : Tree} (hk : fields.keys.Nodup)
    (h : (key, v) ∈ fields) : fields.get? key = some v := by
  induction fields
  case nil => cases h
  case cons e fields ih =>
    obtain ⟨hn, hk⟩ := List.nodup_cons.mp hk
    obtain rfl | h := List.mem_cons.mp h
    · simp [get?]
    · have hne : e.1 ≠ key := fun he => hn (he ▸ List.mem_map_of_mem h)
      simp [get?, hne, ih hk h]

namespace Tree

variable {t : Tree} {items : List Tree} {source fields : Fields}

theorem sameItems_self (h : ∀ x ∈ items, x.same x) : sameItems items items := by
  induction items
  case nil          => rfl
  case cons x xs ih => simp_all [sameItems]

theorem sameFields_of_get? (h : ∀ e ∈ source, fields.get? e.1 = some e.2 ∧ e.2.same e.2) :
    sameFields source fields := by
  induction source
  case nil => rfl
  case cons e source ih =>
    obtain ⟨⟨hg, hs⟩, h⟩ := List.forall_mem_cons.mp h
    simp [sameFields, hg, hs, ih h]

theorem KeysOnce.same_self (h : t.KeysOnce) : t.same t := by
  induction h
  case leaf t h    => cases t <;> first | cases h; done | exact Number.same_self _ | simp [same]
  case arr h ih    => simp [same, sameItems_self ih]
  case obj hk h ih =>
    have hg := sameFields_of_get? fun e he => ⟨Fields.get?_of_mem hk he, ih e he⟩
    simp [same, hg]

end Tree

end Storyworld
