import Storyworld.Proofs.Command.Integer
import Storyworld.Proofs.Decimal.Settled
import Storyworld.Proofs.Operation.Assignment
import Storyworld.Proofs.Tree.Number

/-!
Sums of integers. Between integers below `exactBound` the sum as floats is right, but it is kept to twelve
significant digits, as all results of arithmetic are.
-/

namespace Storyworld

open Binary Decimal

namespace State

variable {s : State} {p slot : Path} {unwrap : Bool} {n : Number} {a d r : ℤ} {step : Float} {delta : Tree}

theorem HasSlot.slot_eq (h : s.HasSlot unwrap p slot) : s.slot p unwrap = .ok slot := by
  cases h
  case described v description hu hp hv =>
    have hs := Tree.isSome_scalarSlot?.mpr ⟨v, description, rfl, hv⟩
    simp [State.slot, hp, hu, hs]
  case plain v hp hv =>
    have hs : unwrap → v.scalarSlot?.isSome = false := fun hu => by
      refine Bool.eq_false_iff.mpr fun hs => ?_
      obtain ⟨x, description, rfl, hx⟩ := Tree.isSome_scalarSlot?.mp hs
      simp [hv hu x description rfl] at hx
    cases unwrap <;> simp_all [State.slot]

-- What is kept of a sum of integers.
def Settles (a r : ℤ) : Prop :=
  Rounds (10 ^ (digitCount a.natAbs - 12)) a r

theorem Settles.eq_iff (h : Settles a r) : r = a ↔ 10 ^ (digitCount a.natAbs - 12) ∣ a :=
  Rounds.eq_iff (by positivity) h

theorem sum_integers (ha : n.value = a) (hd : toRat? step = some (d : ℚ)) (hl : a.natAbs < exactBound)
    (hs : (a + d).natAbs < exactBound) :
    ∃ (r : ℤ) (h : Storable r), sum (.num n) step = .ok (.num (.int r h)) ∧ Settles (a + d) r := by
  have hx := Number.toRat?_toFloat_of_natAbs_lt ha hl
  have hf : IsFloat ((a : ℚ) + d) := by exact_mod_cast isFloat_intCast hs
  have ht : toRat? (n.toFloat + step) = some ((a + d : ℤ) : ℚ) := by
    rw [toRat?_add hx hd hf, Int.cast_add]
  obtain ⟨r, hr, hst, hb⟩ := toRat?_settle ht hs
  exact ⟨r, Number.storable_of_natAbs_lt hb, by rw [sum, Number.ofFloat?_of_toRat? hr hb], hst⟩

theorem add_eq (hs : s.HasSlot true p slot) (hd : delta.toFloat? = some step) :
    s.add p delta =
      ((sum (s.valueAt slot) step).mapError (CommandError.invalidDelta p)).map (s.overwrite p slot) := by
  rw [State.add, hs.slot_eq, hd]
  change ((sum (s.valueAt slot) step).mapError (CommandError.invalidDelta p) >>= fun new =>
    .ok (s.overwrite p slot new)) = _
  cases sum (s.valueAt slot) step <;> rfl

end State

namespace Command

variable {c : Command} {s : State} {flags : Flags} {dice dice' : Dice} {p slot : Path} {raw : String}
  {delta old new : Tree} {step : Float} {n k : Number} {a d : ℤ}

-- An add does what the sum does of which it is one.
theorem run_add (hv : c.verb = .add) (ht : c.target = .ok p) (hr : c.args.tail = [raw])
    (hs : s.HasSlot true p slot) (hd : (Argument.value raw dice).1.toFloat? = some step) :
    (c.run flags s dice).1.isOk = (State.sum (s.valueAt slot) step).isOk ∧
      ∀ new, State.sum (s.valueAt slot) step = .ok new →
        (c.run flags s dice).2.1 = { s with stat := s.stat.set slot new } := by
  have hc : Operation.ofCommand c dice =
      .ok (.add p (Argument.value raw dice).1, (Argument.value raw dice).2) := by
    rw [Operation.ofCommand, ht, hv, hr]
    rfl
  rw [run, hc]
  dsimp only
  rw [Operation.run, State.add_eq hs hd]
  cases State.sum (s.valueAt slot) step with
  | error e => exact ⟨rfl, fun _ h => by cases h⟩
  | ok new  => exact ⟨rfl, fun _ h => by cases h; rfl⟩

-- Integers add up to their sum, to twelve significant digits.
theorem run_adds_integers (flags : Flags) (dice : Dice) (hv : c.verb = .add) (ht : c.target = .ok p)
    (hr : c.args.tail = [raw]) (hs : s.HasSlot true p slot) (hn : s.valueAt slot = .num n) (ha : n.value = a)
    (hj : Tree.ofJson? (Text.stripped raw) = some (.num k)) (hd : k.value = d)
    (hla : a.natAbs < exactBound) (hld : d.natAbs < exactBound) (hl : (a + d).natAbs < exactBound) :
    ∃ (r : ℤ) (h : Storable r), (c.run flags s dice).1.isOk ∧
      (c.run flags s dice).2.1 = { s with stat := s.stat.set slot (.num (.int r h)) } ∧
      (c.run flags s dice).2.1.stat.get? slot = some (.num (.int r h)) ∧
      Rounds (10 ^ (digitCount (a + d).natAbs - 12)) (a + d) r ∧
      (r = a + d ↔ 10 ^ (digitCount (a + d).natAbs - 12) ∣ a + d) := by
  obtain ⟨r, h, hsum, hst⟩ := State.sum_integers ha (Number.toRat?_toFloat_of_natAbs_lt hd hld) hla hl
  have hv' : (Argument.value raw dice).1.toFloat? = some k.toFloat := by
    rw [Argument.value_of_json hj]
    rfl
  obtain ⟨hok, hrun⟩ := run_add hv ht hr hs hv'
  rw [hn, hsum] at hok
  have hrun := hrun _ (hn ▸ hsum)
  refine ⟨r, h, hok, hrun, ?_, hst, hst.eq_iff⟩
  rw [hrun]
  exact Tree.get?_set_self

def purse : State where
  stat := .obj [("gold", .arr [.num (.int 120), .str "coins"])]

def spend : Command where
  verb := .add
  call := ""
  args := ["gold", "-20"]
  reason := ""

theorem purse_spend_settles :
    (spend.run {} purse ⟨[], 0⟩).1.isOk ∧ ∃ (r : ℤ) (h : Storable r),
      (spend.run {} purse ⟨[], 0⟩).2.1.stat.get? [.key "gold", .index 0] = some (.num (.int r h)) ∧
        r = 100 := by
  have hp : purse.stat.get? [.key "gold"] = some (.arr [.num (.int 120), .str "coins"]) := rfl
  obtain ⟨r, h, hok, -, hg, -, hr⟩ := run_adds_integers {} ⟨[], 0⟩ (c := spend) (k := .int (-20)) rfl rfl rfl
    (.described rfl hp rfl) rfl (a := 120) (by simp [Number.value]) (by decide +kernel) (d := -20)
    (by simp [Number.value]) (by decide) (by decide) (by decide)
  exact ⟨hok, r, h, hg, hr.mpr (by decide)⟩

def hoard : State where
  stat := .obj [("hoard", .num (.int 1000000000001))]

def count : Command where
  verb := .add
  call := ""
  args := ["hoard", "0"]
  reason := ""

-- A coin that is the thirteenth digit is gone when nothing is added.
theorem hoard_count_loses :
    (count.run {} hoard ⟨[], 0⟩).1.isOk ∧
      (count.run {} hoard ⟨[], 0⟩).2.1.stat = .obj [("hoard", .num (.int 1000000000000))] := by
  decide +kernel

end Command

end Storyworld
