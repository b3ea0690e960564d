import Storyworld.Proofs.Calendar.Step
import Storyworld.Proofs.Operation.Sum

/-!
Dates that time is added to, once and again. The second time starts from the text that the first one left,
and comes to the same as both times at once, unless the two straddle a leap second.
-/

namespace Storyworld

namespace State

variable {s : State} {p slot : Path} {unwrap : Bool} {text new : String} {step : Float} {date later : Moment}

-- A text in a slot makes way for another one there.
theorem HasSlot.set_text (new : String) (h : s.HasSlot unwrap p slot) (ht : s.valueAt slot = .str text) :
    ({ s with stat := s.stat.set slot (.str new) } : State).HasSlot unwrap p slot := by
  cases h
  case described v description hu hp hv =>
    have hc : (s.stat.set (p.child (.index 0)) (.str new)).get? p =
        some ((Tree.arr [v, .str description]).set [.index 0] (.str new)) := by
      rw [Tree.set_child hp, Tree.get?_set_self]
    exact .described hu hc rfl
  case plain v hp hv => exact .plain (v := .str new) Tree.get?_set_self fun _ _ _ h => by cases h

theorem valueAt_set {new : Tree} : ({ s with stat := s.stat.set slot new } : State).valueAt slot = new := by
  simp [valueAt]

theorem isOk_sum_text : (sum (.str text) step).isOk ↔
    ∃ date later, Moment.read? text = some date ∧ date.add? (Binary.nearestInt step) = some later := by
  unfold sum
  dsimp only
  split
  case h_1 h => simp [h, Except.isOk, Except.toBool]
  case h_2 date h =>
    split
    case h_1 later hl => simp [h, hl, Except.isOk, Except.toBool]
    case h_2 hl       => simp [h, hl, Except.isOk, Except.toBool]

theorem sum_text (hd : Moment.read? text = some date) (hl : date.add? (Binary.nearestInt step) = some later) :
    sum (.str text) step = .ok (.str later.write) := by
  simp [sum, hd, hl]

end State

namespace Command

variable {c c₁ c₂ c₃ : Command} {s : State} {flags : Flags} {dice dice₁ dice₂ dice₃ : Dice} {p slot : Path}
  {text : String} {date later : Moment} {n k : ℤ}

-- The command adds a number to the value at `p`, which counts so many milliseconds.
structure Waits (c : Command) (dice : Dice) (p : Path) (millis : ℤ) : Prop where
  verb   : c.verb = .add
  target : c.target = .ok p
  delta  : ∃ raw step, c.args.tail = [raw] ∧ (Argument.value raw dice).1.toFloat? = some step ∧
    Binary.nearestInt step = millis

-- Integers that are floats count themselves.
theorem waits_of_integer (hv : c.verb = .add) (ht : c.target = .ok p) (hn : n.natAbs < Binary.exactBound)
    (hr : c.args.tail = [Decimal.showInt n]) : c.Waits dice p n where
  verb   := hv
  target := ht
  delta  := by
    have hs := Number.storable_of_natAbs_lt hn
    refine ⟨_, (Number.int n hs).toFloat, hr, ?_, ?_⟩
    · rw [Argument.value_of_json (Argument.ofJson?_showInt hs)]
      rfl
    · exact Binary.nearestInt_eq (Number.toRat?_toFloat_of_natAbs_lt (a := .int n hs) rfl hn)

theorem Waits.isOk_run_iff (h : c.Waits dice p n) (hs : s.HasSlot true p slot)
    (ht : s.valueAt slot = .str text) :
    (c.run flags s dice).1.isOk ↔
      ∃ date later, Moment.read? text = some date ∧ date.add? n = some later := by
  obtain ⟨hv, hp, raw, step, hr, hd, rfl⟩ := h
  rw [(run_add hv hp hr hs hd).1, ht, State.isOk_sum_text]

theorem Waits.run_eq (h : c.Waits dice p n) (hs : s.HasSlot true p slot) (ht : s.valueAt slot = .str text)
    (hd : Moment.read? text = some date) (hl : date.add? n = some later) :
    (c.run flags s dice).2.1 = { s with stat := s.stat.set slot (.str later.write) } := by
  obtain ⟨hv, hp, raw, step, hr, hf, rfl⟩ := h
  exact (run_add hv hp hr hs hf).2 _ (ht ▸ State.sum_text hd hl)

-- Two waits are one, from a text in between that is a date again, if and only if they do not straddle a
-- leap second.
theorem run_waits_again (h₁ : c₁.Waits dice₁ p n) (h₂ : c₂.Waits dice₂ p k) (h₃ : c₃.Waits dice₃ p (n + k))
    (hs : s.HasSlot true p slot) (ht : s.valueAt slot = .str text) (hd : Moment.read? text = some date)
    (hl : date.add? n = some later) (hy : 0 ≤ later.day.year ∧ later.day.year ≤ 9999)
    (ho : (c₃.run flags s dice₃).1.isOk) :
    (c₁.run flags s dice₁).1.isOk ∧ (Moment.read? later.write).isSome ∧
      ((c₂.run flags (c₁.run flags s dice₁).2.1 dice₂).1.isOk ∧
        (c₂.run flags (c₁.run flags s dice₁).2.1 dice₂).2.1 = (c₃.run flags s dice₃).2.1 ↔
          ¬date.Straddles n k) := by
  have hp := Moment.proper_of_read? hd
  have he := Moment.endsMinute_of_read? hd
  have hlater := Moment.of_add?_eq_some hp hl
  have hr : Moment.read? later.write = some later.cut :=
    Moment.read?_write (hp.add? hl) (hlater.1 ▸ he.ahead) hy
  obtain ⟨_, last, hd', ha⟩ := (h₃.isOk_run_iff hs ht).mp ho
  obtain rfl := Option.some.inj (hd.symm.trans hd')
  refine ⟨(h₁.isOk_run_iff hs ht).mpr ⟨_, _, hd, hl⟩, by simp [hr], ?_⟩
  have hs' := hs.set_text later.write ht
  rw [h₁.run_eq hs ht hd hl, h₃.run_eq hs ht hd ha, ← Moment.add?_cut_iff hp he hl ha,
    h₂.isOk_run_iff hs' State.valueAt_set]
  constructor
  · rintro ⟨⟨date', z, hz, hzk⟩, hrun⟩
    obtain rfl := Option.some.inj (hr.symm.trans hz)
    rw [h₂.run_eq hs' State.valueAt_set hr hzk] at hrun
    have hw := congrArg (fun s : State => s.stat.get? slot) hrun
    simp only [Tree.get?_set_self, Option.some.injEq, Tree.str.injEq] at hw
    exact ⟨z, hzk, hw⟩
  · rintro ⟨z, hzk, hw⟩
    refine ⟨⟨_, z, hr, hzk⟩, ?_⟩
    rw [h₂.run_eq hs' State.valueAt_set hr hzk, hw]
    simp

def eve : State where
  stat := .obj [("dusk", .str "2016-12-31T23:59:60.500Z")]

def linger (millis : ℤ) : Command where
  verb := .add
  call := ""
  args := ["dusk", Decimal.showInt millis]
  reason := ""

theorem waits_linger (dice : Dice) (hn : n.natAbs < Binary.exactBound) :
    (linger n).Waits dice [.key "dusk"] n :=
  waits_of_integer rfl rfl hn rfl

def brink : Moment :=
  ⟨63645263999, 1500000000⟩

-- Into the new year, and on to its first hour.
theorem eve_linger_again :
    ((linger 3600000).run {} ((linger 500).run {} eve ⟨[], 0⟩).2.1 ⟨[], 0⟩).1.isOk ∧
      ((linger 3600000).run {} ((linger 500).run {} eve ⟨[], 0⟩).2.1 ⟨[], 0⟩).2.1 =
        ((linger 3600500).run {} eve ⟨[], 0⟩).2.1 := by
  have hd : Moment.read? "2016-12-31T23:59:60.500Z" = some brink := by decide +kernel
  have hl : brink.add? 500 = some ⟨63645264000, 0⟩ := by decide +kernel
  have hy : 0 ≤ (⟨63645264000, 0⟩ : Moment).day.year ∧ (⟨63645264000, 0⟩ : Moment).day.year ≤ 9999 := by
    decide +kernel
  have ho : ((linger (500 + 3600000)).run {} eve ⟨[], 0⟩).1.isOk := by decide +kernel
  have hs : eve.HasSlot true [.key "dusk"] [.key "dusk"] :=
    .plain (v := .str "2016-12-31T23:59:60.500Z") rfl fun _ _ _ h => by cases h
  obtain ⟨-, -, hi⟩ := run_waits_again (waits_linger ⟨[], 0⟩ (by decide)) (waits_linger ⟨[], 0⟩ (by decide))
    (waits_linger ⟨[], 0⟩ (by decide)) hs rfl hd hl hy ho
  exact hi.mpr (by decide)

-- Back to before the leap second and forth again, and it is the new year.
theorem eve_linger_straddles :
    ((linger (-600)).run {} eve ⟨[], 0⟩).2.1.stat = .obj [("dusk", .str "2016-12-31T23:59:59.900Z")] ∧
      ((linger 600).run {} ((linger (-600)).run {} eve ⟨[], 0⟩).2.1 ⟨[], 0⟩).2.1.stat =
        .obj [("dusk", .str "2017-01-01T00:00:00.500Z")] ∧
      ((linger 0).run {} eve ⟨[], 0⟩).2.1.stat = .obj [("dusk", .str "2016-12-31T23:59:60.500Z")] := by
  decide +kernel

end Command

end Storyworld
