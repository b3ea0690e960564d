import Storyworld.Proofs.Tree.Survival

/-!
Paths as lenses. What is written at a path is read there, whatever was missing or in the way; the last
write counts; a write of what stands there changes nothing; and a read that parts from the path of a
write sees nothing of it.
-/

namespace Storyworld.Tree

variable {t x : Tree} {p q : Path}

-- At some step the paths lead from one node to different keys of a map, or to different items of a list.
inductive Parts : Tree → Path → Path → Prop where
  | here {t : Tree} {a b st st' : Segment} {p q : Path} (ha : t.enters? a = some st)
    (hb : t.enters? b = some st') (h : st ≠ st') : Parts t (a :: p) (b :: q)
  | deeper {t c : Tree} {a b : Segment} {p q : Path} (hs : t.enters? a = t.enters? b)
    (hc : t.child? b = some c) (h : Parts c p q) : Parts t (a :: p) (b :: q)

theorem Parts.not_crosses (h : Parts t p q) : ¬t.Crosses p q := by
  induction h with
  | here ha hb h =>
    rintro (_ | _ | ⟨hs, -, -⟩)
    exact h <| Option.some.inj <| ha.symm.trans <| hs.trans hb
  | deeper hs hc h ih => exact fun hx => ih ((crosses_cons hc).mp hx).2

-- The step at which they part enters the node, and so do the ones before.
theorem Parts.not_overturns (h : Parts t p q) : ¬t.Overturns p q := by
  induction h with
  | here ha hb h =>
    rintro (hn | ⟨hs, -, -⟩)
    · cases ha.symm.trans hn
    · exact h <| Option.some.inj <| ha.symm.trans <| hs.trans hb
  | deeper hs hc h ih =>
    have ⟨st, hb⟩ := exists_enters? hc
    rw [overturns_cons hc]
    rintro (hn | hx)
    · cases (hs.trans hb).symm.trans hn
    · exact ih hx.2

theorem Parts.get?_set (h : Parts t p q) (hq : t.get? q = some x) (v : Tree) :
    (t.set p v).get? q = some x :=
  (sameWay_set hq h.not_crosses h.not_overturns).get?.trans hq

theorem set_lens (t : Tree) (p q : Path) (v w : Tree) :
    (t.set p v).get? p = some v ∧ (t.set p v).set p w = t.set p w ∧
      (∀ x, t.get? p = some x → t.set p x = t) ∧
      (t.Parts p q → ∀ x, t.get? q = some x → (t.set p v).get? q = some x) :=
  ⟨get?_set_self, set_set, fun _ => set_of_get?, fun h _ hq => h.get?_set hq v⟩

def cellar : Tree :=
  .obj [("casks", .arr [.str "ale", .obj [("of", .str "malt")], .null])]

-- The second cask is named in two ways, and both of them stay off the first one, however it is spelled.
theorem cellar_lens :
    cellar.get? [.key "casks", .key "1", .key "of"] = some (.str "malt") ∧
      cellar.Parts [.key "casks", .key "00"] [.key "casks", .index 1, .key "of"] ∧
      cellar.set [.key "casks", .index 1, .key "of"] (.str "malt") = cellar ∧
      (cellar.set [.key "casks", .key "00"] (.str "rye")).get? [.key "casks", .index 1, .key "of"] =
        some (.str "malt") := by
  have hp : cellar.Parts [.key "casks", .key "00"] [.key "casks", .index 1, .key "of"] :=
    .deeper rfl rfl (.here rfl rfl (by decide))
  have h := set_lens cellar [.key "casks", .key "00"] [.key "casks", .index 1, .key "of"] (.str "rye") .null
  have h' := set_lens cellar [.key "casks", .index 1, .key "of"] [] .null .null
  exact ⟨rfl, hp, h'.2.2.1 _ rfl, h.2.2.2 hp _ rfl⟩

end Storyworld.Tree
