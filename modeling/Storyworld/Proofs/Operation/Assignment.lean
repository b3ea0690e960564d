import Storyworld.Proofs.Calendar.Text
import Storyworld.Proofs.Operation.Effect
import Storyworld.Proofs.Tree.Replacement

/-!
What `set` and `add` write: one value that is there, and nothing else. Of a value with a description it
is the value alone, and a number gives way to a number or to null. What is added to keeps its kind, but
for a date that comes to a year which is written with a sign.
-/

namespace Storyworld

namespace Tree

variable {v x : Tree} {description : String}

theorem described?_eq_some : v.described? = some (x, description) ↔ v = .arr [x, .str description] := by
  unfold described?
  split <;> simp_all

theorem isSome_scalarSlot? :
    v.scalarSlot?.isSome ↔ ∃ x description, v = .arr [x, .str description] ∧ x.isComposite = false := by
  cases hd : v.described?
  case none =>
    have hn : ∀ x description, v ≠ .arr [x, .str description] := by
      intro x description hv
      cases hd.symm.trans (described?_eq_some.mpr hv)
    simp [scalarSlot?, hd, hn]
  case some r =>
    obtain ⟨x, description⟩ := r
    obtain rfl := described?_eq_some.mp hd
    simp [scalarSlot?, hd]

end Tree

namespace State

variable {s s' : State} {flags : Flags} {p slot : Path} {v : Tree} {unwrap : Bool}

-- The place of a value that has a description, or else the path itself.
inductive HasSlot (s : State) (unwrap : Bool) (p : Path) : Path → Prop where
  | described {v : Tree} {description : String} (hu : unwrap)
    (hp : s.stat.get? p = some (.arr [v, .str description])) (hv : v.isComposite = false) :
    HasSlot s unwrap p (p.child (.index 0))
  | plain {v : Tree} (hp : s.stat.get? p = some v)
    (hv : unwrap → ∀ x description, v = .arr [x, .str description] → x.isComposite) :
    HasSlot s unwrap p p

-- What is stored where `old` was, if `v` is given for it.
inductive Stores : (old v new : Tree) → Prop where
  | given {old v : Tree} (h : v = .null ∨ ∀ n, old ≠ .num n) : Stores old v v
  | number {n m : Number} {v : Tree} {x : Float} (hv : v ≠ .null) (hx : v.toFloat? = some x)
    (hm : Number.ofFloat? x = some m) : Stores (.num n) v (.num m)

inductive Sums : (old delta new : Tree) → Prop where
  | number {n m : Number} {delta : Tree} {step : Float} (hs : delta.toFloat? = some step)
    (hm : Number.ofFloat? (Decimal.settle (n.toFloat + step)) = some m) :
    Sums (.num n) delta (.num m)
  | date {text : String} {delta : Tree} {step : Float} {date later : Moment}
    (hs : delta.toFloat? = some step) (hd : Moment.read? text = some date)
    (hl : date.add? (Binary.nearestInt step) = some later) : Sums (.str text) delta (.str later.write)

inductive SameKind : (old new : Tree) → Prop where
  | number {n m : Number} : SameKind (.num n) (.num m)
  | date {before after : String} (hb : (Moment.read? before).isSome) (ha : (Moment.read? after).isSome) :
    SameKind (.str before) (.str after)

-- A date and a step from it to a year that has not four digits.
def Oversteps (old delta : Tree) : Prop :=
  ∃ text step date later, old = .str text ∧ delta.toFloat? = some step ∧ Moment.read? text = some date ∧
    date.add? (Binary.nearestInt step) = some later ∧ ¬(0 ≤ later.day.year ∧ later.day.year ≤ 9999)

theorem Sums.sameKind_iff {old delta new : Tree} (h : Sums old delta new) :
    SameKind old new ↔ ¬Oversteps old delta := by
  cases h
  case number => exact iff_of_true .number (by rintro ⟨_, _, _, _, ⟨⟩, _⟩)
  case date text step date later hd hl hs =>
    have hr := Moment.isSome_read?_write ((Moment.proper_of_read? hd).add? hl)
    have ho : Oversteps (.str text) delta ↔ ¬(0 ≤ later.day.year ∧ later.day.year ≤ 9999) := by
      constructor
      · rintro ⟨_, _, _, _, ⟨⟩, hs', hd', hl', hy⟩
        cases hs.symm.trans hs'
        cases hd.symm.trans hd'
        cases hl.symm.trans hl'
        exact hy
      · exact fun hy => ⟨text, step, date, later, rfl, hs, hd, hl, hy⟩
    rw [ho, not_not, ← hr]
    constructor
    · intro h
      cases h with
      | date _ ha => exact ha
    · exact .date (by rw [hd]; rfl)

theorem hasSlot_slot : Yields (s.HasSlot unwrap p) (s.slot p unwrap) := by
  unfold slot
  split
  case h_1 => exact yields_error
  case h_2 v hp =>
    refine yields_ok ?_
    cases unwrap
    case false => exact .plain hp (by simp)
    case true =>
      cases hs : v.scalarSlot?.isSome
      case true =>
        obtain ⟨x, description, rfl, hx⟩ := Tree.isSome_scalarSlot?.mp hs
        exact .described rfl hp hx
      case false =>
        refine .plain hp fun _ x description hv => ?_
        cases hx : x.isComposite
        case true  => rfl
        case false =>
          have hs' := Tree.isSome_scalarSlot?.mpr ⟨x, description, hv, hx⟩
          simp [hs] at hs'

theorem HasSlot.get? (h : s.HasSlot unwrap p slot) : s.stat.get? slot = some (s.valueAt slot) := by
  cases h
  case described v description hu hp hv =>
    simp [valueAt, Tree.get?_child, hp, Tree.child?]
  case plain v hp hv => simp [valueAt, hp]

theorem HasSlot.has (h : s.HasSlot unwrap p slot) : s.stat.has p := by
  cases h <;> simp_all [Tree.has]

-- One value of the state replaced, and nothing else in it.
inductive Assigns (s : State) (unwrap : Bool) (p : Path) (writes : Tree → Tree → Prop) : State → Prop where
  | mk {slot : Path} {old new stat : Tree} (hs : s.HasSlot unwrap p slot) (hw : writes old new)
    (hr : Tree.Replaced old new slot s.stat stat) : Assigns s unwrap p writes { s with stat }

theorem HasSlot.assigns {writes : Tree → Tree → Prop} {new : Tree} (hs : s.HasSlot unwrap p slot)
    (hw : writes (s.valueAt slot) new) :
    s.Assigns unwrap p writes { s with stat := s.stat.set slot new } :=
  .mk hs hw (Tree.replaced_set hs.get?)

theorem Assigns.imp {writes writes' : Tree → Tree → Prop} (hi : ∀ old new, writes old new → writes' old new)
    (h : s.Assigns unwrap p writes s') : s.Assigns unwrap p writes' s' := by
  cases h with
  | mk hs hw hr => exact .mk hs (hi _ _ hw) hr

theorem Assigns.has {writes : Tree → Tree → Prop} (h : s.Assigns unwrap p writes s') : s.stat.has p := by
  cases h with
  | mk hs => exact hs.has

theorem asNumber_stores {old : Tree} {n : Number} (ho : old = .num n) (hv : v ≠ .null) :
    Yields (Stores old v) (asNumber p v) := by
  subst ho
  unfold asNumber
  split
  case h_1 m h =>
    obtain ⟨x, hx, hm⟩ := Option.bind_eq_some_iff.mp h
    exact yields_ok (.number hv hx hm)
  case h_2 => exact yields_error

theorem assigns_put :
    Yields (fun r => s.Assigns (!flags.strictSet) p (Stores · v) r.2) (s.put p flags v) := by
  refine hasSlot_slot.bind fun slot hs => ?_
  split
  case h_1       => exact yields_ok (hs.assigns (.given (.inl rfl)))
  case h_2 ho hv =>
    refine (asNumber_stores ho hv).bind fun w hw => ?_
    exact yields_ok (hs.assigns hw)
  case h_3 hv hn => exact yields_ok (hs.assigns (.given (.inr hn)))

theorem sum_sums {old : Tree} {step : Float} (hs : v.toFloat? = some step) :
    Yields (Sums old v) (sum old step) := by
  unfold sum
  split
  case h_1 n =>
    split
    case h_1 m hm => exact yields_ok (.number hs hm)
    case h_2      => exact yields_error
  case h_2 text =>
    split
    case h_1 => exact yields_error
    case h_2 date hd =>
      split
      case h_1 later hl => exact yields_ok (.date hs hd hl)
      case h_2          => exact yields_error
  case h_3 => exact yields_error

theorem assigns_add : Yields (fun r => s.Assigns true p (Sums · v) r.2) (s.add p v) := by
  refine hasSlot_slot.bind fun slot hs => ?_
  split
  case h_1 step hv =>
    refine (sum_sums hv).mapError.bind fun w hw => ?_
    exact yields_ok (hs.assigns hw)
  case h_2 => exact yields_error

end State

namespace Command

variable {c : Command} {s : State} {flags : Flags} {dice dice' : Dice} {applied : Applied} {p : Path}
  {op : Operation}

-- The raw value of a command: its last argument if there are two, and else the third one.
def given? (c : Command) : Option String :=
  c.args[if c.args.length = 2 then 1 else 2]?

theorem read_of_ofCommand (ht : c.target = .ok p) (h : Operation.ofCommand c dice = .ok (op, dice')) :
    Operation.read c.verb p c.args.tail dice = .ok (op, dice') := by
  rw [Operation.ofCommand, ht] at h
  exact h

theorem ofCommand_set (hv : c.verb = .set) (ht : c.target = .ok p)
    (h : Operation.ofCommand c dice = .ok (op, dice')) :
    ∃ raw, c.given? = some raw ∧ op = .set p (Argument.value raw dice).1 := by
  have h := read_of_ofCommand ht h
  unfold given?
  rw [hv] at h
  generalize c.args = args at h ⊢
  obtain _ | ⟨a, _ | ⟨b, _ | ⟨raw, rest⟩⟩⟩ := args
  case nil | cons.nil => simp [Operation.read, Verb.canonical] at h
  all_goals
    simp only [List.tail_cons, Operation.read, Verb.canonical, Except.ok.injEq, Prod.mk.injEq] at h
    exact ⟨_, by simp, h.1.symm⟩

theorem ofCommand_add (hv : c.verb = .add) (ht : c.target = .ok p)
    (h : Operation.ofCommand c dice = .ok (op, dice')) :
    ∃ raw, c.given? = some raw ∧ op = .add p (Argument.value raw dice).1 := by
  have h := read_of_ofCommand ht h
  unfold given?
  rw [hv] at h
  generalize c.args = args at h ⊢
  obtain _ | ⟨a, _ | ⟨raw, _ | ⟨b, rest⟩⟩⟩ := args
  case cons.cons.nil =>
    simp only [List.tail_cons, Operation.read, Verb.canonical, Except.ok.injEq, Prod.mk.injEq] at h
    exact ⟨raw, rfl, h.1.symm⟩
  all_goals simp [Operation.read, Verb.canonical] at h

-- A set or an add that goes through replaces one value that was there before, and all else stays. A sum
-- is of the kind of what it was added to, if and only if no date oversteps the years of four digits.
theorem run_assigns (hv : c.verb = .set ∨ c.verb = .add) (h : (c.run flags s dice).1 = .ok applied) :
    ∃ p raw, c.target = .ok p ∧ s.stat.has p ∧ c.given? = some raw ∧
      (c.verb = .set → s.Assigns (!flags.strictSet) p
        (State.Stores · (Argument.value raw dice).1) (c.run flags s dice).2.1) ∧
      (c.verb = .add → s.Assigns true p
        (fun old new => State.Sums old (Argument.value raw dice).1 new ∧
          (State.SameKind old new ↔ ¬State.Oversteps old (Argument.value raw dice).1))
        (c.run flags s dice).2.1) := by
  obtain ⟨op, dice', _, ho, hr, -, hs⟩ := exists_of_run_eq_ok h
  have ht := (ofCommand_eq_ok ho).1
  rw [hs]
  obtain hv | hv := hv
  case inl =>
    obtain ⟨raw, hg, hop⟩ := ofCommand_set hv ht ho
    generalize op.path = p at ht hop
    subst hop
    have ha := State.assigns_put _ (Operation.of_keeping_eq_ok hr)
    exact ⟨p, raw, ht, ha.has, hg, fun _ => ha, by simp [hv]⟩
  case inr =>
    obtain ⟨raw, hg, hop⟩ := ofCommand_add hv ht ho
    generalize op.path = p at ht hop
    subst hop
    have ha := State.assigns_add _ (Operation.of_keeping_eq_ok hr)
    exact ⟨p, raw, ht, ha.has, hg, by simp [hv], fun _ => ha.imp fun _ _ hw => ⟨hw, hw.sameKind_iff⟩⟩

def chamber : State where
  stat := .obj [("door", .bool true), ("mood", .arr [.str "grim", .str "of the day"])]

def calm : Command where
  verb := .set
  call := "_.set(mood,\"grim\",\"calm\");"
  args := ["mood", "\"grim\"", "\"calm\""]
  reason := ""

def calmed : Applied :=
  .one [.key "mood"] "grim->calm" (some ⟨[.key "mood"], .arr [.str "grim", .str "of the day"],
    .arr [.str "calm", .str "of the day"]⟩)

-- The old value is passed over, and the description stays.
theorem chamber_calm_assigns :
    (calm.run {} chamber ⟨[], 0⟩).1 = .ok calmed ∧
      chamber.Assigns true [.key "mood"] (State.Stores · (.str "calm"))
        (calm.run {} chamber ⟨[], 0⟩).2.1 := by
  have hc : (calm.run {} chamber ⟨[], 0⟩).1 = .ok calmed := rfl
  obtain ⟨p, raw, ht, -, hr, ha, -⟩ := run_assigns (.inl rfl) hc
  obtain rfl : [.key "mood"] = p := Except.ok.inj <| Eq.trans rfl ht
  obtain rfl : "\"calm\"" = raw := Option.some.inj <| Eq.trans rfl hr
  exact ⟨hc, ha rfl⟩

def calendar : State where
  stat := .obj [("dusk", .str "9999-12-31T23:59:59.999Z")]

def wait : Command where
  verb := .add
  call := "_.add(dusk,1);"
  args := ["dusk", "1"]
  reason := ""

-- One more millisecond, and what stands there is no date any more.
theorem calendar_wait_kind :
    (wait.run {} calendar ⟨[], 0⟩).1.isOk ∧
      (wait.run {} calendar ⟨[], 0⟩).2.1.stat = .obj [("dusk", .str "+10000-01-01T00:00:00.000Z")] ∧
      ¬State.SameKind (.str "9999-12-31T23:59:59.999Z") (.str "+10000-01-01T00:00:00.000Z") := by
  have hr : Moment.read? "+10000-01-01T00:00:00.000Z" = none := by decide +kernel
  refine ⟨by decide +kernel, by decide +kernel, fun h => ?_⟩
  cases h with
  | date _ ha => simp [hr] at ha

end Command

end Storyworld
