import Storyworld.Proofs.Command.Value
import Storyworld.Proofs.Operation.Removal
import Storyworld.Proofs.Tree.Equality
import Storyworld.Proofs.Tree.Number

/-!
What equality of values says: lists agree item by item and maps key by key, whatever the order of the
keys. Numbers agree if their values do, and also if they are too large to be told apart as floats.
-/

namespace Storyworld

open Binary

def Number.SameValue (a b : Number) : Prop :=
  a.value = b.value

-- Numbers that equality takes for one.
def Number.Agrees (a b : Number) : Prop :=
  a.SameValue b ∨ a.Blurs b

namespace Tree

variable {t u x y c : Tree} {xs ys items : List Tree} {fields source : Fields} {step : Segment}
  {agrees : Number → Number → Prop}

-- The same value, with a choice of which numbers count as the same.
inductive Equal (agrees : Number → Number → Prop) : Tree → Tree → Prop where
  | null : Equal agrees .null .null
  | bool (b : Bool) : Equal agrees (.bool b) (.bool b)
  | str (s : String) : Equal agrees (.str s) (.str s)
  | num {a b : Number} (h : agrees a b) : Equal agrees (.num a) (.num b)
  | arr {xs ys : List Tree} (hl : xs.length = ys.length)
    (h : ∀ (i : ℕ) (x y : Tree), xs[i]? = some x → ys[i]? = some y → Equal agrees x y) :
    Equal agrees (.arr xs) (.arr ys)
  | obj {fields source : Fields} (hk : ∀ k, k ∈ fields.keys ↔ k ∈ source.keys)
    (h : ∀ (k : String) (x y : Tree), fields.get? k = some x → source.get? k = some y →
      Equal agrees x y) :
    Equal agrees (.obj fields) (.obj source)

theorem sameItems_iff :
    sameItems xs ys ↔ ∀ (i : ℕ) (x y : Tree), xs[i]? = some x → ys[i]? = some y → x.same y := by
  induction xs generalizing ys
  case nil => simp [sameItems]
  case cons x xs ih =>
    cases ys
    case nil       => simp [sameItems]
    case cons y ys =>
      rw [sameItems, Bool.and_eq_true, ih]
      constructor
      · rintro ⟨h₀, h⟩ (_ | i) x' y' hx hy
        · cases hx
          cases hy
          exact h₀
        · exact h i x' y' hx hy
      · exact fun h => ⟨h 0 x y rfl rfl, fun i => h (i + 1)⟩

theorem sameFields_iff :
    sameFields fields source ↔ ∀ e ∈ fields, ∃ y, source.get? e.1 = some y ∧ e.2.same y := by
  induction fields
  case nil => simp [sameFields]
  case cons e fields ih =>
    rw [sameFields, Bool.and_eq_true, ih, List.forall_mem_cons]
    refine and_congr_left fun _ => ?_
    cases source.get? e.1 <;> simp

-- Maps with as many keys have the same ones, if those of the first are all in the second.
theorem keys_iff (hf : fields.keys.Nodup) (hs : source.keys.Nodup) :
    (∀ k, k ∈ fields.keys ↔ k ∈ source.keys) ↔
      fields.length = source.length ∧ fields.keys ⊆ source.keys := by
  have hl (fields : Fields) : fields.keys.length = fields.length := List.length_map ..
  rw [← List.perm_ext_iff_of_nodup hf hs, ← hl fields, ← hl source]
  constructor
  · exact fun h => ⟨h.length_eq, h.subset⟩
  · exact fun h => (hf.subperm h.2).perm_of_length_le h.1.ge

theorem Equal.imp {agrees' : Number → Number → Prop} (hi : ∀ a b, agrees a b → agrees' a b)
    (h : t.Equal agrees u) : t.Equal agrees' u := by
  induction h
  case null          => exact .null
  case bool b        => exact .bool b
  case str s         => exact .str s
  case num h         => exact .num (hi _ _ h)
  case arr hl _ ih   => exact .arr hl ih
  case obj hk _ ih   => exact .obj hk ih

theorem same_leaf_iff (ht : t.isComposite = false) : t.same u ↔ t.Equal Number.Agrees u := by
  constructor
  · intro h
    cases t <;> first | (cases ht; done) | skip
    all_goals cases u <;> simp only [same, beq_iff_eq, reduceCtorEq, Bool.false_eq_true] at h
    case null   => exact .null
    case bool   => exact h ▸ .bool _
    case num    => exact .num (Number.same_iff.mp h)
    case str    => exact h ▸ .str _
  · rintro (_ | _ | _ | h)
    case num => exact Number.same_iff.mpr h
    all_goals simp_all [same, isComposite]

theorem same_arr_iff : (arr xs).same u ↔ ∃ ys, u = .arr ys ∧ xs.length = ys.length ∧
    ∀ (i : ℕ) (x y : Tree), xs[i]? = some x → ys[i]? = some y → x.same y := by
  cases u <;> simp [same, sameItems_iff]

theorem same_obj_iff : (obj fields).same u ↔
    ∃ source : Fields, u = .obj source ∧ fields.length = source.length ∧
      ∀ e ∈ fields, ∃ y, source.get? e.1 = some y ∧ e.2.same y := by
  cases u <;> simp [same, sameFields_iff]

theorem same_iff (ht : t.KeysOnce) (hu : u.KeysOnce) : t.same u ↔ t.Equal Number.Agrees u := by
  induction ht generalizing u
  case leaf h => exact same_leaf_iff h
  case arr xs _ ih =>
    rw [same_arr_iff]
    constructor
    · rintro ⟨ys, rfl, hl, h⟩
      refine .arr hl fun i x y hx hy => ?_
      exact (ih x (List.mem_of_getElem? hx) (hu.item y (List.mem_of_getElem? hy))).mp (h i x y hx hy)
    · rintro (_ | _ | _ | _ | ⟨hl, h⟩)
      refine ⟨_, rfl, hl, fun i x y hx hy => ?_⟩
      exact (ih x (List.mem_of_getElem? hx) (hu.item y (List.mem_of_getElem? hy))).mpr (h i x y hx hy)
  case obj fields hf _ ih =>
    rw [same_obj_iff]
    constructor
    · rintro ⟨source, rfl, hl, h⟩
      -- Each key of the first map is in the second, with a value that is the same.
      have hc : fields.keys ⊆ source.keys := by
        intro k hk
        obtain ⟨e, he, rfl⟩ := List.mem_map.mp hk
        obtain ⟨y, hy, -⟩ := h e he
        exact Fields.mem_keys.mpr ⟨y, hy⟩
      refine .obj ((keys_iff hf hu.nodup_keys).mpr ⟨hl, hc⟩) fun k x y hx hy => ?_
      obtain ⟨z, hz, hs⟩ := h (k, x) (Fields.mem_of_get? hx)
      obtain rfl := Option.some.inj (hz.symm.trans hy)
      exact (ih _ (Fields.mem_of_get? hx) (hu.entry _ (Fields.mem_of_get? hy))).mp hs
    · rintro (_ | _ | _ | _ | _ | ⟨hk, h⟩)
      have hl := (keys_iff hf hu.nodup_keys).mp hk
      refine ⟨_, rfl, hl.1, fun e he => ?_⟩
      obtain ⟨y, hy⟩ := Fields.mem_keys.mp ((hk e.1).mp (List.mem_map_of_mem he))
      exact ⟨y, hy, (ih e he (hu.entry _ (Fields.mem_of_get? hy))).mpr
        (h e.1 e.2 y (Fields.get?_of_mem hf he) hy)⟩

theorem same_of_sameValue (ht : t.KeysOnce) (hu : u.KeysOnce) (h : t.Equal Number.SameValue u) : t.same u :=
  (same_iff ht hu).mpr (h.imp fun _ _ => .inl)

/-! ## Trees without larger integers -/

-- Every number that stands in it is a float, as integers of up to 53 bits are.
def HoldsFloats (t : Tree) : Prop :=
  ∀ p n, t.get? p = some (.num n) → IsFloat n.value

theorem holdsFloats_iff : t.HoldsFloats ↔
    (∀ n, t = .num n → IsFloat n.value) ∧ ∀ step c, t.child? step = some c → c.HoldsFloats := by
  constructor
  · intro h
    refine ⟨fun n hn => h [] n (congrArg some hn), fun step c hc p n hp => ?_⟩
    exact h (step :: p) n (get?_cons_eq_some.mpr ⟨c, hc, hp⟩)
  · rintro ⟨hn, hc⟩ (_ | ⟨step, p⟩) n hp
    · exact hn n (Option.some.inj hp)
    · obtain ⟨c, hs, hp⟩ := get?_cons_eq_some.mp hp
      exact hc step c hs p n hp

theorem HoldsFloats.item {i : ℕ} (h : (arr xs).HoldsFloats) (hx : xs[i]? = some x) : x.HoldsFloats :=
  (holdsFloats_iff.mp h).2 (.index i) x (child?_arr.mpr ⟨i, rfl, hx⟩)

theorem HoldsFloats.entry {k : String} (h : (obj fields).HoldsFloats) (hx : fields.get? k = some x) :
    x.HoldsFloats :=
  (holdsFloats_iff.mp h).2 (.key k) x hx

theorem holdsFloats_leaf (ht : t.isComposite = false) (h : ∀ n, t = .num n → IsFloat n.value) :
    t.HoldsFloats := by
  refine holdsFloats_iff.mpr ⟨h, fun step c hc => ?_⟩
  cases t <;> first | (cases ht; done) | cases hc

theorem holdsFloats_num {n : Number} (h : IsFloat n.value) : (num n).HoldsFloats :=
  holdsFloats_leaf rfl fun _ hn => num.inj hn ▸ h

theorem holdsFloats_obj (h : ∀ e ∈ fields, e.2.HoldsFloats) : (obj fields).HoldsFloats :=
  holdsFloats_iff.mpr ⟨by simp, fun step c hc => h (step.name, c) (Fields.mem_of_get? hc)⟩

theorem Equal.sameValue (h : t.Equal Number.Agrees u) (ht : t.HoldsFloats) (hu : u.HoldsFloats) :
    t.Equal Number.SameValue u := by
  induction h
  case null    => exact .null
  case bool b  => exact .bool b
  case str s   => exact .str s
  case num h   =>
    refine .num (h.resolve_right fun hb => ?_)
    exact hb.1 ⟨ht [] _ rfl, hu [] _ rfl⟩
  case arr hl _ ih => exact .arr hl fun i x y hx hy => ih i x y hx hy (ht.item hx) (hu.item hy)
  case obj hk _ ih => exact .obj hk fun k x y hx hy => ih k x y hx hy (ht.entry hx) (hu.entry hy)

end Tree

theorem Operation.keysOnce_selector {verb : Verb} {p q : Path} {rest : List String} {dice dice' : Dice}
    {selector : Tree} (h : read verb p rest dice = .ok (.deleteFrom q selector, dice')) :
    selector.KeysOnce := by
  unfold read at h
  split at h <;> simp only [Except.ok.injEq, Prod.mk.injEq, deleteFrom.injEq, reduceCtorEq, false_and] at h
  obtain ⟨⟨-, rfl⟩, -⟩ := h
  exact Argument.keysOnce_value

namespace Command

variable {c : Command} {s : State} {flags : Flags} {dice dice' : Dice} {applied : Applied} {p : Path}
  {selector : Tree} {items : List Tree}

theorem keysOnce_selector (h : Operation.ofCommand c dice = .ok (.deleteFrom p selector, dice')) :
    selector.KeysOnce := by
  unfold Operation.ofCommand at h
  cases ht : c.target <;> rw [ht] at h
  case error => cases h
  case ok q  => exact Operation.keysOnce_selector h

-- What goes from a list stands at the selected position, or else it is equal to the selector.
theorem run_removes_equal (hs : s.stat.KeysOnce)
    (ho : Operation.ofCommand c dice = .ok (.deleteFrom p selector, dice'))
    (hp : s.stat.get? p = some (.arr items)) (h : (c.run flags s dice).1 = .ok applied) :
    ∃ i x, items[i]? = some x ∧ s.Removes p (.index i) (c.run flags s dice).2.1 ∧
      (selector.position? = some i ∨ x.Equal Number.Agrees selector) := by
  have hv := (isRemoval_of_ofCommand ho).mp trivial
  obtain ⟨op, _, container, step, ho', hpk, hr, -⟩ := run_delete_takes hv h
  obtain ⟨rfl, -⟩ := Prod.mk.inj (Except.ok.inj (ho'.symm.trans ho))
  cases hpk with
  | position hq hi hl =>
    obtain rfl : items = _ := by simpa [hp] using hq
    exact ⟨_, _, List.getElem?_eq_getElem hl, hr, .inl hi⟩
  | equal hq _ hx he _ =>
    obtain rfl : items = _ := by simpa [hp] using hq
    have hk := (hs.get? hp).item _ (List.mem_of_getElem? hx)
    exact ⟨_, _, hx, hr, .inr ((Tree.same_iff hk (keysOnce_selector ho)).mp he)⟩
  | nth hq   => simp [hp] at hq
  | named hq => simp [hp] at hq

-- Equality is that of values, but for numbers that blur, and what is removed by a value is equal to it.
theorem same_and_removes (t u : Tree) (c : Command) (flags : Flags) (s : State) (dice : Dice)
    (ht : t.KeysOnce) (hu : u.KeysOnce) (hs : s.stat.KeysOnce) :
    (t.same u ↔ t.Equal Number.Agrees u) ∧ (t.Equal Number.SameValue u → t.same u) ∧
    (t.HoldsFloats → u.HoldsFloats → t.same u → t.Equal Number.SameValue u) ∧
    ∀ p selector dice' items applied, Operation.ofCommand c dice = .ok (.deleteFrom p selector, dice') →
      s.stat.get? p = some (.arr items) → (c.run flags s dice).1 = .ok applied →
      ∃ i x, items[i]? = some x ∧ s.Removes p (.index i) (c.run flags s dice).2.1 ∧
        (selector.position? = some i ∨ x.Equal Number.Agrees selector) := by
  have he := Tree.same_iff ht hu
  refine ⟨he, Tree.same_of_sameValue ht hu, fun hft hfu h => (he.mp h).sameValue hft hfu, ?_⟩
  intro p selector dice' items applied ho hp h
  exact run_removes_equal hs ho hp h

def lantern : Tree :=
  .obj [("lit", .bool true), ("oil", .num (.int 80))]

def hold : State where
  stat := .obj [("hold", .arr [.str "rope", lantern])]

def takeLantern : Command where
  verb := .delete
  call := ""
  args := ["hold", "\x7b\"oil\": 80.0, \"lit\": true\x7d"]
  reason := ""

-- The selector as it is read, with its keys in another order and the oil as a float.
def meant : Tree :=
  .obj [("oil", .num (.float 80)), ("lit", .bool true)]

theorem lantern_holdsFloats : lantern.HoldsFloats := by
  refine Tree.holdsFloats_obj (List.forall_mem_cons.mpr ⟨?lit, List.forall_mem_singleton.mpr ?oil⟩)
  case lit => exact Tree.holdsFloats_leaf rfl (by simp)
  case oil =>
    have hf : IsFloat ((80 : ℤ) : ℚ) := isFloat_intCast (by decide)
    exact Tree.holdsFloats_num hf

theorem meant_holdsFloats : meant.HoldsFloats := by
  refine Tree.holdsFloats_obj (List.forall_mem_cons.mpr ⟨?oil, List.forall_mem_singleton.mpr ?lit⟩)
  case lit => exact Tree.holdsFloats_leaf rfl (by simp)
  case oil =>
    have hf : (80 : Float).isFinite = true := by decide +kernel
    exact Tree.holdsFloats_num ⟨80, Number.toRat?_float hf⟩

theorem hold_takeLantern_removes :
    (lantern.same meant ↔ lantern.Equal Number.SameValue meant) ∧
      (takeLantern.run {} hold ⟨[], 0⟩).2.1.stat = .obj [("hold", .arr [.str "rope"])] ∧
      ∃ i x, [Tree.str "rope", lantern][i]? = some x ∧
        hold.Removes [.key "hold"] (.index i) (takeLantern.run {} hold ⟨[], 0⟩).2.1 ∧
        (meant.position? = some i ∨ x.Equal Number.Agrees meant) := by
  have hr : (takeLantern.run {} hold ⟨[], 0⟩).1 =
      .ok (.one [.key "hold"] "removed \x7b\"lit\":true,\"oil\":80\x7d" none) := by decide +kernel
  have ho : Operation.ofCommand takeLantern ⟨[], 0⟩ = .ok (.deleteFrom [.key "hold"] meant, ⟨[], 0⟩) := by
    decide +kernel
  have ⟨_, hs, hv, hd⟩ :=
    same_and_removes lantern meant takeLantern {} hold ⟨[], 0⟩ (by decide) (by decide) (by decide)
  exact ⟨⟨hv lantern_holdsFloats meant_holdsFloats, hs⟩, by decide +kernel, hd _ _ _ _ _ ho rfl hr⟩

-- Two integers that are one float, and so they are taken for the same number.
theorem neighbours_same :
    (Tree.num (.int 9007199254740993)).same (.num (.int 9007199254740992)) ∧
      ¬(Tree.num (.int 9007199254740993)).Equal Number.SameValue (.num (.int 9007199254740992)) := by
  refine ⟨by decide +kernel, fun h => ?_⟩
  cases h with
  | num h => simp [Number.SameValue, Number.value] at h

end Command

end Storyworld
