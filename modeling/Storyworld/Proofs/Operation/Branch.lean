import Storyworld.Proofs.Meta.Tidy
import Storyworld.Proofs.Operation.Acceptance
import Storyworld.Proofs.Schema.Stability

/-!
Branches: what an operation on one child of the root leaves to the others. The live tree below another
child stays in any case. The schema does so unless all items of a list share one node, or there was no
schema and an insertion has made it for all branches.
-/

namespace Storyworld

namespace Tree

variable {t t' u x : Tree} {key : String} {a b : Segment} {p q : Path} {v : Tree} {fields : Fields}

-- Two maps with the same entry for a key.
inductive AgreeAt (key : String) : Tree → Tree → Prop where
  | intro {fields fields' : Fields} (h : fields'.get? key = fields.get? key) :
    AgreeAt key (.obj fields) (.obj fields')

theorem agreeAt_refl : AgreeAt key (.obj fields) (.obj fields) :=
  .intro rfl

theorem AgreeAt.set (h : AgreeAt key t t') (hk : key ≠ a.name) : AgreeAt key t (t'.set (a :: p) v) := by
  cases h
  case intro h =>
    rw [set_obj]
    exact .intro <| (Fields.get?_alter_of_ne hk).trans h

theorem AgreeAt.unset? (h : AgreeAt key t t') (hk : key ≠ a.name)
    (hu : t'.unset? (a :: p) = some (x, u)) : AgreeAt key t u := by
  cases h
  case intro fields fields' h =>
    obtain _ | ⟨step, rest⟩ := p
    · obtain ⟨v, _, he⟩ := Option.map_eq_some_iff.mp hu
      cases he
      exact .intro <| (Fields.get?_erase_of_ne hk).trans h
    · simp only [Tree.unset?, bind, Option.bind_eq_some_iff] at hu
      obtain ⟨_, _, _, _, he⟩ := hu
      cases he
      exact .intro <| (Fields.get?_put_of_ne hk).trans h

theorem AgreeAt.get? (h : AgreeAt b.name t t') : t'.get? (b :: q) = t.get? (b :: q) := by
  cases h
  case intro h => simp [child?, h]

end Tree

namespace Schema

variable {n n' c : Schema} {a b : Segment} {p : Path} {key : String} {schema : Schema} {ps : Properties}
  {f : Schema → Schema} {old : Option Schema} {inherited : Bool} {t t' : Tree}

-- Two nodes that differ only in what lies beside a child.
inductive AgreeAt (b : Segment) : Schema → Schema → Prop where
  | refl {n : Schema} : AgreeAt b n n
  | object {ps ps' : Properties} {traits : Traits} (h : ps'.find? b.name = ps.find? b.name) :
    AgreeAt b (object ps traits) (object ps' traits)
  | array {element element' : Schema} {traits : Traits} (h : b.index? = none) :
    AgreeAt b (array element traits) (array element' traits)

theorem AgreeAt.child? (h : AgreeAt b n n') : n'.child? b = n.child? b := by
  cases h
  case refl     => rfl
  case object h => simp [Schema.child?, h]
  case array h  => simp [Schema.child?, h]

-- Both steps lead to the one node that all items of a list have.
def Shares (n : Schema) (a b : Segment) : Prop :=
  ∃ element traits, n = array element traits ∧ a.index?.isSome ∧ b.index?.isSome

theorem agreeAt_replaceChild (hk : b.name ≠ a.name) (hn : ¬n.Shares a b) :
    AgreeAt b n (n.replaceChild a c) := by
  cases n
  case object ps traits => exact .object (Properties.find?_replace_of_ne hk)
  case array element traits =>
    cases ha : a.index?
    case none   => simpa [replaceChild, ha] using AgreeAt.refl
    case some i =>
      cases hb : b.index?
      case none   => simpa [replaceChild, ha] using AgreeAt.array hb
      case some j => exact absurd ⟨element, traits, rfl, by simp [ha], by simp [hb]⟩ hn
  all_goals exact .refl

theorem agreeAt_addProperty (hk : b.name ≠ key) : AgreeAt b n (addProperty key schema n) := by
  cases n
  case object ps traits =>
    refine .object ?_
    rw [Properties.find?_insert, if_neg (Ne.symm hk)]
  all_goals exact .refl

theorem agreeAt_update? (hk : b.name ≠ a.name) (hn : ¬n.Shares a b)
    (h : n.update? (a :: p) f = some n') : AgreeAt b n n' := by
  rw [update?] at h
  simp only [bind, Option.bind_eq_some_iff] at h
  obtain ⟨_, _, _, _, he⟩ := h
  cases he
  exact agreeAt_replaceChild hk hn

-- What is read off two maps agrees where the maps do, if they carry the same metadata.
theorem agreeAt_infer (hb : Tree.AgreeAt b.name t t') (hm : Tree.AgreeAt Meta.key t t') :
    AgreeAt b (infer old inherited t) (infer old inherited t') := by
  cases hb
  case intro fields fields' hb =>
    cases hm
    case intro hm =>
      have ho : Meta.ofMap fields' = Meta.ofMap fields := by rw [Meta.ofMap, hm, Meta.ofMap]
      rw [infer_obj, infer_obj, readMap, readMap, passedOn, passedOn, readMap, readMap, ho]
      refine .object ?_
      rw [find?_inferProperties, find?_inferProperties, hb]

end Schema

namespace State

variable {s s' mid : State} {flags : Flags} {op : Operation} {a b : Segment} {p path container : Path}
  {paths : List Path} {key : String} {t : Tree} {schema : RootSchema} {fields : Fields} {v : Tree}

/-! ## States that agree on a branch -/

-- The two states agree on a child of the root, and on what the schema says of it.
structure AgreeAt (b : Segment) (s s' : State) : Prop where
  stat   : Tree.AgreeAt b.name s.stat s'.stat
  schema : Option.Rel (Schema.AgreeAt b) (s.schema.map (·.root)) (s'.schema.map (·.root))

theorem schemaAt?_eq : s.schemaAt? path = (s.schema.map (·.root)).bind (·.get? path) := by
  unfold schemaAt?
  cases s.schema <;> rfl

theorem AgreeAt.alike (h : AgreeAt b s s') : s.Alike b s' := by
  have hs := h.schema
  constructor
  case get? => exact fun q => h.stat.get?
  all_goals
    simp only [requires, closedList, schemaAt?_eq]
    generalize s.schema.map (·.root) = root? at hs ⊢
    generalize s'.schema.map (·.root) = root?' at hs ⊢
    cases hs
  case schemaAt?.some hr => exact fun q => by simp [Schema.get?, hr.child?]
  case requires.some hr  => cases hr <;> simp [Schema.get?, Schema.requires, *]
  case closedList.some hr => cases hr <;> rfl
  all_goals simp

theorem rel_schema_refl : Option.Rel (Schema.AgreeAt b) (s.schema.map (·.root)) (s.schema.map (·.root)) := by
  cases s.schema
  · exact .none
  · exact .some .refl

/-! ## What an operation leaves -/

theorem schema_cleanAll : (s.cleanAll paths).schema = s.schema := by
  induction paths generalizing s
  case nil => rfl
  case cons path paths ih =>
    refine ih.trans ?_
    dsimp only [cleanAt]
    split <;> rfl

theorem agreeAt_cleanAll (h : Tree.AgreeAt key t s.stat) (hk : key ≠ a.name)
    (hp : ∀ path ∈ paths, ∃ p, path = a :: p) : Tree.AgreeAt key t (s.cleanAll paths).stat := by
  induction paths generalizing s
  case nil => exact h
  case cons path paths ih =>
    have ⟨⟨p, he⟩, hp⟩ := List.forall_mem_cons.mp hp
    refine ih ?_ hp
    subst he
    dsimp only [cleanAt]
    split
    · exact h.set hk
    · exact h

theorem Fills.exists_refreshSchema (h : s.Fills flags container s') :
    ∃ v, s'.schema =
      ({ s with stat := s.stat.set container v }.refreshSchema container flags).schema := by
  cases h
  case mk v steps => exact ⟨v, schema_cleanAll⟩

theorem Fills.agreeAt_stat (h : s.Fills flags (a :: p) s') (hs : s.stat = .obj fields)
    (hk : key ≠ a.name) : Tree.AgreeAt key s.stat s'.stat := by
  cases h
  case mk v steps =>
    refine agreeAt_cleanAll ?_ hk fun path hm => ?_
    · rw [refreshSchema_stat, hs]
      exact Tree.agreeAt_refl.set hk
    · obtain ⟨step, _, rfl⟩ := List.mem_map.mp hm
      exact ⟨_, rfl⟩

theorem Writes.agreeAt_stat (h : s.Writes op s') (hs : s.stat = .obj fields) (hp : op.path = a :: p)
    (hk : key ≠ a.name) : Tree.AgreeAt key s.stat s'.stat := by
  cases h
  case write p' v hw =>
    obtain ⟨r, rfl⟩ := hw
    rw [hs, hp]
    exact Tree.agreeAt_refl.set hk
  case remove path x t h =>
    obtain rfl : path = a :: p := hp
    rw [hs] at h ⊢
    exact Tree.agreeAt_refl.unset? hk h

theorem exists_refreshSchema_agreeAt (flags : Flags) (p : Path) (hs : s.schema = some schema) (hk : b.name ≠ a.name)
    (hn : ¬schema.root.Shares a b) :
    ∃ schema', (s.refreshSchema (a :: p) flags).schema = some schema' ∧
      Schema.AgreeAt b schema.root schema'.root := by
  have hkeep : ∃ schema', s.schema = some schema' ∧ Schema.AgreeAt b schema.root schema'.root :=
    ⟨schema, hs, .refl⟩
  unfold refreshSchema
  simp only [hs]
  split
  case h_1 => exact ⟨schema, hs, .refl⟩
  case h_2 data _ =>
    split
    case h_1 root hu => exact ⟨_, rfl, Schema.agreeAt_update? hk hn hu⟩
    case h_2 =>
      split
      case h_2 => exact ⟨schema, hs, .refl⟩
      case h_1 k hl =>
        cases hu : schema.root.update? (a :: p).dropLast _
        case none      => exact ⟨schema, hs, .refl⟩
        case some root =>
          refine ⟨_, rfl, ?_⟩
          cases p
          case cons step rest => exact Schema.agreeAt_update? hk hn hu
          case nil =>
            -- The container is a new child of the root itself.
            obtain rfl : a = .key k := by simpa using hl
            obtain rfl : Schema.addProperty k _ schema.root = root := by
              simpa [Schema.update?] using hu
            exact Schema.agreeAt_addProperty hk

theorem exists_below_of_houses (h : s.Houses container (a :: p)) (ha : (s.stat.get? [a]).isSome) :
    ∃ p', container = a :: p' := by
  obtain rfl | ⟨hn, step, he⟩ := h
  · exact ⟨p, rfl⟩
  · cases container
    case cons => exact ⟨_, by cases he; rfl⟩
    case nil =>
      rw [he] at hn
      cases he
      simp [Path.child] at hn
      simp [hn] at ha

end State

namespace Operation

variable {s : State} {flags : Flags} {op : Operation} {a b : Segment} {p : Path} {applied : Applied}
  {fields : Fields} {key : String}

section

variable (hs : s.stat = .obj fields) (hp : op.path = a :: p) (ha : (s.stat.get? [a]).isSome)
  (h : (op.run flags s).1 = .ok applied)

include hs hp ha h

theorem agreeAt_stat_run (hk : key ≠ a.name) : Tree.AgreeAt key s.stat (op.run flags s).2.stat := by
  by_cases hi : op.IsInsertion
  case pos =>
    obtain ⟨container, hh, hf⟩ := fills_run hi h
    obtain ⟨p', rfl⟩ := State.exists_below_of_houses (hp ▸ hh) ha
    exact hf.agreeAt_stat hs hk
  case neg => exact (writes_run hi h).agreeAt_stat hs hp hk

theorem agreeAt_run (hk : b.name ≠ a.name)
    (hc : ¬op.IsInsertion ∨ ∃ schema, s.schema = some schema ∧ ¬schema.root.Shares a b) :
    s.AgreeAt b (op.run flags s).2 := by
  refine ⟨agreeAt_stat_run hs hp ha h hk, ?_⟩
  by_cases hi : op.IsInsertion
  case neg =>
    rw [(writes_run hi h).schema]
    exact State.rel_schema_refl
  case pos =>
    obtain ⟨schema, hsc, hn⟩ := hc.resolve_left (not_not_intro hi)
    obtain ⟨container, hh, hf⟩ := fills_run hi h
    obtain ⟨p', rfl⟩ := State.exists_below_of_houses (hp ▸ hh) ha
    obtain ⟨v, he⟩ := hf.exists_refreshSchema
    have hsc' : { s with stat := s.stat.set (a :: p') v }.schema = some schema := hsc
    obtain ⟨schema', hr, hag⟩ := State.exists_refreshSchema_agreeAt flags p' hsc' hk hn
    rw [he, hr, hsc]
    exact .some hag

theorem agreeAt_run_reconcile (hk : b.name ≠ a.name) (hm : Meta.key ≠ a.name)
    (hi : op.IsInsertion) (hn : s.schema = none) : (s.reconcile flags).AgreeAt b (op.run flags s).2 := by
  refine ⟨agreeAt_stat_run hs hp ha h hk, ?_⟩
  obtain ⟨container, hh, hf⟩ := fills_run hi h
  obtain ⟨p', rfl⟩ := State.exists_below_of_houses (hp ▸ hh) ha
  obtain ⟨v, he⟩ := hf.exists_refreshSchema
  have hset (key : String) (hk : key ≠ a.name) : Tree.AgreeAt key s.stat (s.stat.set (a :: p') v) := by
    rw [hs]
    exact Tree.agreeAt_refl.set hk
  rw [he, State.refreshSchema, hn]
  refine .some ?_
  simp only [hn]
  exact Schema.agreeAt_infer (hset _ hk) (hset _ hm)

end

end Operation

namespace Command

variable {c₁ c₂ : Command} {s : State} {flags flags' : Flags} {dice dice₁ dice₂ : Dice} {a b : Segment}
  {p q : Path} {fields : Fields}

-- Commands on different children of the root meet only in the schema.
theorem isOk_run_beside (hs : s.stat = .obj fields) (hm : Meta.Bare s.stat)
    (h₁ : c₁.target = .ok (a :: p)) (h₂ : c₂.target = .ok (b :: q)) (hk : b.name ≠ a.name)
    (ha : (s.stat.get? [a]).isSome) (hb : (s.stat.get? [b]).isSome) (hc : c₂.Settled)
    (hok : (c₁.run flags s dice).1.isOk) :
    let s₁ := (c₁.run flags s dice).2.1
    let accepts (s : State) (dice : Dice) := (c₂.run flags' s dice).1.isOk
    (c₁.verb.canonical ≠ .insert ∨ (∃ schema, s.schema = some schema ∧ ¬schema.root.Shares a b) →
      accepts s₁ dice₁ = accepts s dice₂) ∧
    (c₁.verb.canonical = .insert → s.schema = none →
      accepts s₁ dice₁ = accepts (s.reconcile flags) dice₂) ∧
    accepts s₁ dice₁ = accepts { s with schema := s₁.schema } dice₂ := by
  obtain ⟨op, dice', applied, ho, h, hr⟩ := exists_of_isOk_run hok
  have ⟨ht, hi⟩ := ofCommand_eq_ok ho
  have hp : op.path = a :: p := Except.ok.inj (ht.symm.trans h₁)
  have ⟨v, hv⟩ := Option.isSome_iff_exists.mp ha
  have hn : a.name ≠ Meta.key := (hm.get? hv).2 a (List.mem_singleton_self a)
  dsimp only
  rw [hr]
  refine ⟨fun hc' => ?_, fun hv hsc => ?_, ?_⟩
  · have hc' := hc'.imp_left (mt hi.mp)
    exact isOk_run_of_alike (Operation.agreeAt_run hs hp ha h hk hc').alike h₂ hb hc
  · exact isOk_run_of_alike
      (Operation.agreeAt_run_reconcile hs hp ha h hk hn.symm (hi.mpr hv) hsc).alike h₂ hb hc
  · have hag : State.AgreeAt b { s with schema := (op.run flags s).2.schema } (op.run flags s).2 :=
      ⟨Operation.agreeAt_stat_run hs hp ha h hk, State.rel_schema_refl⟩
    exact isOk_run_of_alike hag.alike h₂ hb hc

def packRope : Command where
  verb := .insert
  call := ""
  args := ["bag", "\"rope\""]
  reason := ""

def payGold : Command where
  verb := .insert
  call := ""
  args := ["purse", "\"gold\"", "\"coin\""]
  reason := ""

def luggage : State where
  stat := .obj [("bag", .arr []), ("purse", .obj [])]
  schema := some
    { root := .object [⟨"bag", none, .array .string { extensible := true }⟩,
        ⟨"purse", none, .object [] { extensible := true }⟩] {} }

-- The purse takes the coin, whether the rope is packed or not.
theorem luggage_takes_gold :
    (packRope.run {} luggage ⟨[], 0⟩).1.isOk ∧
      (payGold.run {} (packRope.run {} luggage ⟨[], 0⟩).2.1 ⟨[], 0⟩).1.isOk =
        (payGold.run {} luggage ⟨[], 0⟩).1.isOk := by
  have hm : Meta.Bare luggage.stat := by decide +kernel
  have hc : payGold.Settled := settled_of_not_infix (by decide +kernel)
  have hok : (packRope.run {} luggage ⟨[], 0⟩).1.isOk := by decide +kernel
  refine ⟨hok, (isOk_run_beside rfl hm rfl rfl (by decide) rfl rfl hc hok).1 ?_⟩
  exact .inr ⟨_, rfl, by rintro ⟨_, _, ⟨⟩, _⟩⟩

def luggageLoose : State := { luggage with schema := none }

def packOil : Command where
  verb := .insert
  call := ""
  args := ["[0]", "\"oil\""]
  reason := ""

def packWick : Command where
  verb := .insert
  call := ""
  args := ["[1]", "\"wick\""]
  reason := ""

def shelves : State where
  stat := .obj [("0", .arr []), ("1", .arr [])]
  schema := some { root := .array .any {} }

-- Without a schema, packing the rope makes one that closes the purse. And where a list node describes a
-- map whose keys are numerals, the oil in one list closes the other.
theorem luggage_closes :
    (Meta.Bare luggageLoose.stat ∧ payGold.Settled ∧
      packRope.target = .ok [.key "bag"] ∧ payGold.target = .ok [.key "purse"] ∧
      (packRope.run {} luggageLoose ⟨[], 0⟩).1.isOk ∧ (payGold.run {} luggageLoose ⟨[], 0⟩).1.isOk ∧
      (payGold.run {} (packRope.run {} luggageLoose ⟨[], 0⟩).2.1 ⟨[], 0⟩).1.isOk = false) ∧
    Meta.Bare shelves.stat ∧ packWick.Settled ∧
      packOil.target = .ok [.index 0] ∧ packWick.target = .ok [.index 1] ∧
      (packOil.run {} shelves ⟨[], 0⟩).1.isOk ∧ (packWick.run {} shelves ⟨[], 0⟩).1.isOk ∧
      (packWick.run {} (packOil.run {} shelves ⟨[], 0⟩).2.1 ⟨[], 0⟩).1.isOk = false := by
  have hg : payGold.Settled := settled_of_not_infix (by decide +kernel)
  have hw : packWick.Settled := settled_of_not_infix (by decide +kernel)
  refine ⟨⟨?_, hg, rfl, rfl, ?_⟩, ?_, hw, rfl, rfl, ?_⟩ <;> decide +kernel

end Command

end Storyworld
