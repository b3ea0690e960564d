import Storyworld.Proofs.Calendar.Text

/-!
Steps in time. A moment that is written and read again is cut to the millisecond, and steps of whole
milliseconds do not see the difference. They add up, unless one of them leads out of a leap second over
its start or its end and the other one back to it: outside of it nothing tells that it was there.
-/

namespace Storyworld.Moment

variable {m x y later : Moment} {t v w d n k seconds nanos : Int}

/-! ## Where a step leads -/

-- The moment so many nanoseconds after day 0 began, in days without leap seconds.
def ofNanos (t : Int) : Moment :=
  ⟨t / 1000000000, t % 1000000000⟩

-- The moment `v` nanoseconds after the second of `m` began. If `m` is in a leap second, that second is
-- two long.
def ahead (m : Moment) (v : Int) : Moment :=
  if m.nano < 1000000000 ∨ v < 1000000000 then ofNanos (1000000000 * m.second + v)
  else if v < 2000000000 then { m with nano := v }
  else ofNanos (1000000000 * m.second + v - 1000000000)

theorem ahead_of_ordinary (h : m.nano < 1000000000 ∨ v < 1000000000) :
    m.ahead v = ofNanos (1000000000 * m.second + v) :=
  if_pos h

theorem ahead_of_leap (hm : 1000000000 ≤ m.nano) (h₁ : 1000000000 ≤ v) (h₂ : v < 2000000000) :
    m.ahead v = { m with nano := v } := by
  rw [ahead, if_neg (by omega), if_pos h₂]

theorem ahead_of_later (hm : 1000000000 ≤ m.nano) (h : 2000000000 ≤ v) :
    m.ahead v = ofNanos (1000000000 * m.second + v - 1000000000) := by
  rw [ahead, if_neg (by omega), if_neg (by omega)]

theorem shift_of_leaveLeap {l : Moment} (h : m.leaveLeap seconds nanos = l) (hl : l.nano < 1000000000) :
    m.shift seconds nanos = ofNanos (1000000000 * (l.second + seconds) + l.nano + nanos) := by
  have hn : ¬nanosInSecond ≤ l.nano := by
    unfold nanosInSecond
    omega
  rw [shift, h]
  dsimp only
  rw [if_neg hn, ofNanos, mk.injEq]
  unfold nanosInSecond
  omega

theorem leaveLeap_eq : m.leaveLeap seconds nanos =
    if m.nano < 1000000000 then m
    else if 0 < seconds ∨ 0 < nanos ∧ 2000000000 ≤ m.nano + nanos then { m with nano := m.nano - 1000000000 }
    else if seconds < 0 then ⟨m.second + 1, m.nano - 1000000000⟩
    else m :=
  rfl

-- Seconds and nanoseconds of a step have one sign.
theorem shift_eq (hp : m.Proper) (hn : nanos.natAbs < 1000000000) (hs : 0 < seconds → 0 ≤ nanos)
    (hs' : seconds < 0 → nanos ≤ 0) :
    m.shift seconds nanos = m.ahead (m.nano + 1000000000 * seconds + nanos) := by
  obtain ⟨h₀, h₁⟩ : 0 ≤ m.nano ∧ m.nano < 2000000000 := hp
  by_cases hm : m.nano < 1000000000
  case pos =>
    rw [shift_of_leaveLeap (if_pos hm) hm, ahead_of_ordinary (.inl hm)]
    congr 1
    omega
  by_cases hf : 0 < seconds ∨ 0 < nanos ∧ 2000000000 ≤ m.nano + nanos
  case pos =>
    have hl : m.leaveLeap seconds nanos = ⟨m.second, m.nano - 1000000000⟩ := by
      rw [leaveLeap_eq, if_neg hm, if_pos hf]
    rw [shift_of_leaveLeap hl (by dsimp only; omega), ahead_of_later (by omega) (by omega)]
    congr 1
    dsimp only
    omega
  by_cases hb : seconds < 0
  case pos =>
    have hl : m.leaveLeap seconds nanos = ⟨m.second + 1, m.nano - 1000000000⟩ := by
      rw [leaveLeap_eq, if_neg hm, if_neg hf, if_pos hb]
    rw [shift_of_leaveLeap hl (by dsimp only; omega), ahead_of_ordinary (.inr (by omega))]
    congr 1
    dsimp only
    omega
  case neg =>
    obtain rfl : seconds = 0 := by omega
    have hl : m.leaveLeap 0 nanos = m := by rw [leaveLeap_eq, if_neg hm, if_neg hf, if_neg hb]
    have hk : m.shift 0 nanos = ⟨m.second, m.nano + nanos⟩ := by
      rw [shift, hl]
      exact if_pos (Int.not_lt.mp hm)
    rw [hk]
    by_cases hv : m.nano + nanos < 1000000000
    case pos =>
      rw [ahead_of_ordinary (.inr (by omega)), ofNanos, mk.injEq]
      omega
    case neg =>
      rw [ahead_of_leap (by omega) (by omega) (by omega), mk.injEq]
      omega

-- What the milliseconds of a step are together.
theorem add?_eq (hp : m.Proper) {millis : Int} :
    m.add? millis = if Day.inRange (m.ahead (m.nano + 1000000 * millis)).day.year then
      some (m.ahead (m.nano + 1000000 * millis)) else none := by
  have h₁ := Int.tmod_lt_of_pos millis (by decide : (0 : Int) < 1000)
  have h₂ := Int.lt_tmod_of_pos millis (by decide : (0 : Int) < 1000)
  have h₃ := Int.mul_tdiv_add_tmod millis 1000
  have hs : m.shift (millis.tdiv 1000) (millis.tmod 1000 * nanosInMilli) =
      m.ahead (m.nano + 1000000 * millis) := by
    unfold nanosInMilli
    rw [shift_eq hp (by omega) (fun h => ?_) fun h => ?_]
    · congr 1
      omega
    · have := Int.tmod_nonneg (a := millis) 1000 (by omega)
      omega
    · have := Int.tmod_nonneg (a := -millis) 1000 (by omega)
      rw [Int.neg_tmod] at this
      omega
  rw [add?, hs]

/-! ## Leap seconds -/

-- A leap second ends a minute.
def EndsMinute (m : Moment) : Prop :=
  1000000000 ≤ m.nano → m.second % 60 = 59

theorem endsMinute_onDay {day : Day} {hour minute second nano : Nat} (h : nano < 1000000000) :
    (onDay day hour minute second nano).EndsMinute := by
  unfold onDay EndsMinute secondsInDay
  dsimp only
  split <;> dsimp only <;> omega

theorem endsMinute_of_read? {text : String} (h : read? text = some m) : m.EndsMinute := by
  obtain ⟨p, m₀, minutes, hn, hm, rfl⟩ := exists_of_read? h
  unfold Parts.toMoment? at hm
  split at hm
  case isTrue =>
    obtain rfl := Option.some.inj hm
    intro hl
    have he : (onDay p.date p.hour p.minute p.second p.nano).EndsMinute := endsMinute_onDay hn
    have := he hl
    dsimp only
    omega
  case isFalse => cases hm

theorem nano_ofNanos : (ofNanos t).nano < 1000000000 :=
  Int.emod_lt_of_pos t (by decide)

-- A step ends in a leap second only if it stays in one.
theorem EndsMinute.ahead (h : m.EndsMinute) : (m.ahead v).EndsMinute := by
  unfold Moment.ahead
  split_ifs with h₁ h₂
  · exact fun hl => absurd nano_ofNanos (Int.not_lt.mpr hl)
  · exact fun _ => h (by omega)
  · exact fun hl => absurd nano_ofNanos (Int.not_lt.mpr hl)

/-! ## Milliseconds -/

-- The moment as it is written.
def cut (m : Moment) : Moment :=
  { m with nano := m.nano - m.nano % 1000000 }

theorem onDay_parts (hp : m.Proper) (he : m.EndsMinute) :
    onDay m.day m.hour m.minute m.shownSecond (m.milli * 1000000) = m.cut := by
  have hn : m.day.toNumber = m.second / secondsInDay := Day.toNumber_ofNumber _
  obtain ⟨h₀, h₁⟩ : 0 ≤ m.nano ∧ m.nano < 2000000000 := hp
  unfold onDay cut
  simp only [hn, secondsInDay, nanosInSecond, hour, minute, shownSecond, milli]
  split_ifs with hs
  · have hl : 1000000000 ≤ m.nano := by omega
    have := he hl
    rw [mk.injEq]
    omega
  · have hl : m.nano < 1000000000 := by
      by_contra hl
      have := he (by omega)
      omega
    rw [mk.injEq]
    omega

theorem read?_write (hp : m.Proper) (he : m.EndsMinute) (hy : 0 ≤ m.day.year ∧ m.day.year ≤ 9999) :
    read? m.write = some m.cut := by
  rw [read?, write, String.toList_ofList, trim_write, stamp?_write hp hy, onDay_parts hp he]
  rfl

theorem write_cut : m.cut.write = m.write := by
  have h₁ : (m.nano - m.nano % 1000000).toNat / 1000000000 = m.nano.toNat / 1000000000 := by omega
  have h₂ : (m.nano - m.nano % 1000000).toNat % 1000000000 / 1000000 =
      m.nano.toNat % 1000000000 / 1000000 := by omega
  have hc : writeClock m.cut = writeClock m := by simp only [writeClock, cut, h₁, h₂]
  rw [write, hc]
  rfl

theorem cut_ofNanos : (ofNanos t).cut = ofNanos (t - t % 1000000) := by
  unfold cut ofNanos
  dsimp only
  rw [mk.injEq]
  omega

theorem ahead_cases (m : Moment) (v : Int) : (m.nano < 1000000000 ∨ v < 1000000000) ∨
    1000000000 ≤ m.nano ∧ 1000000000 ≤ v ∧ v < 2000000000 ∨ 1000000000 ≤ m.nano ∧ 2000000000 ≤ v := by
  omega

-- Seconds end where milliseconds do, so it is the same where the rest of one is cut off.
theorem cut_ahead : (m.ahead v).cut = m.ahead (v - v % 1000000) := by
  obtain h | ⟨hm, h₁, h₂⟩ | ⟨hm, h⟩ := ahead_cases m v
  · rw [ahead_of_ordinary h, ahead_of_ordinary (by omega), cut_ofNanos]
    congr 1
    omega
  · rw [ahead_of_leap hm h₁ h₂, ahead_of_leap hm (by omega) (by omega)]
    rfl
  · rw [ahead_of_later hm h, ahead_of_later hm (by omega), cut_ofNanos]
    congr 1
    omega

-- Of its nanoseconds it only counts whether a second of them is over.
theorem ahead_congr (hs : x.second = y.second) (hn : x.nano < 1000000000 ↔ y.nano < 1000000000) :
    x.ahead v = y.ahead v := by
  obtain h | ⟨hm, h₁, h₂⟩ | ⟨hm, h⟩ := ahead_cases x v
  · rw [ahead_of_ordinary h, ahead_of_ordinary (h.imp_left hn.mp), hs]
  · rw [ahead_of_leap hm h₁ h₂, ahead_of_leap (by omega) h₁ h₂, hs]
  · rw [ahead_of_later hm h, ahead_of_later (by omega) h, hs]

theorem ahead_cut : m.cut.ahead v = m.ahead v := by
  refine ahead_congr rfl ?_
  unfold cut
  dsimp only
  omega

-- The next step starts where the text says that the last one ended.
theorem ahead_cut_nano : m.cut.ahead (m.cut.nano + 1000000 * k) = (m.ahead (m.nano + 1000000 * k)).cut := by
  rw [ahead_cut, cut_ahead]
  congr 1
  unfold cut
  dsimp only
  omega

/-! ## One step after the other -/

theorem ahead_ofNanos : (ofNanos t).ahead ((ofNanos t).nano + d) = ofNanos (t + d) := by
  rw [ahead_of_ordinary (.inl nano_ofNanos)]
  congr 1
  unfold ofNanos
  dsimp only
  omega

theorem cut_ofNanos_ne : (ofNanos t).cut ≠ (ofNanos (t - 1000000000)).cut := by
  intro h
  have hs : t / 1000000000 = (t - 1000000000) / 1000000000 := congrArg second h
  omega

theorem cut_ofNanos_ne_leap (h : 1000000000 ≤ v) : (ofNanos t).cut ≠ ({ m with nano := v } : Moment).cut := by
  intro he
  have hn : (ofNanos (t - t % 1000000)).nano = v - v % 1000000 := congrArg nano (cut_ofNanos.symm.trans he)
  have hl := nano_ofNanos (t := t - t % 1000000)
  omega

-- Steps from a leap second before it or behind it.
def EndsBefore (m : Moment) (n : Int) : Prop :=
  1000000000 ≤ m.nano ∧ m.nano + 1000000 * n < 1000000000

def EndsBehind (m : Moment) (n : Int) : Prop :=
  1000000000 ≤ m.nano ∧ 2000000000 ≤ m.nano + 1000000 * n

-- The first step leads out of a leap second over one of its ends, and the second one back over it.
def Straddles (m : Moment) (n k : Int) : Prop :=
  m.EndsBefore n ∧ ¬m.EndsBefore (n + k) ∨ m.EndsBehind n ∧ ¬m.EndsBehind (n + k)

instance : Decidable (m.Straddles n k) :=
  inferInstanceAs (Decidable ((_ ∧ _) ∧ ¬(_ ∧ _) ∨ (_ ∧ _) ∧ ¬(_ ∧ _)))

theorem ahead_ahead_iff (hv : m.nano + 1000000 * n = v) (hw : m.nano + 1000000 * (n + k) = w) :
    ((m.ahead v).ahead ((m.ahead v).nano + 1000000 * k)).cut = (m.ahead w).cut ↔ ¬m.Straddles n k := by
  have hd : w = v + 1000000 * k := by omega
  unfold Straddles EndsBefore EndsBehind
  rw [hv, hw]
  obtain h | ⟨hm, h₁, h₂⟩ | ⟨hm, h⟩ := ahead_cases m v
  case inl =>
    rw [ahead_of_ordinary h, ahead_ofNanos, Int.add_assoc, ← hd]
    obtain hw | ⟨hm, hw₁, hw₂⟩ | ⟨hm, hw⟩ := ahead_cases m w
    · rw [ahead_of_ordinary hw]
      simp only [true_iff]
      omega
    · rw [ahead_of_leap hm hw₁ hw₂]
      exact iff_of_false (cut_ofNanos_ne_leap hw₁) (by omega)
    · rw [ahead_of_later hm hw]
      exact iff_of_false cut_ofNanos_ne (by omega)
  case inr.inl =>
    have hl : ({ m with nano := v } : Moment).ahead w = m.ahead w := ahead_congr rfl (by dsimp only; omega)
    rw [ahead_of_leap hm h₁ h₂]
    dsimp only
    rw [← hd, hl]
    simp only [true_iff]
    omega
  case inr.inr =>
    have ht : 1000000000 * m.second + v - 1000000000 + 1000000 * k =
        1000000000 * m.second + w - 1000000000 := by omega
    rw [ahead_of_later hm h, ahead_ofNanos, ht]
    obtain hw | ⟨hm, hw₁, hw₂⟩ | ⟨hm, hw⟩ := ahead_cases m w
    · rw [ahead_of_ordinary hw]
      exact iff_of_false cut_ofNanos_ne.symm (by omega)
    · rw [ahead_of_leap hm hw₁ hw₂]
      exact iff_of_false (cut_ofNanos_ne_leap hw₁) (by omega)
    · rw [ahead_of_later hm hw]
      simp only [true_iff]
      omega

/-! ## Texts -/

theorem padded_append_inj {k i j : Nat} {r r' : List Char} (hk : 0 < k) (hi : i < 10 ^ k) (hj : j < 10 ^ k)
    (h : padded k i ++ r = padded k j ++ r') : i = j ∧ r = r' := by
  have hd := congrArg (digits k) h
  rw [digits_padded hk hi, digits_padded hk hj] at hd
  exact Prod.mk.inj (Option.some.inj hd)

theorem writeClock_inj (hx : x.Proper) (hy : y.Proper) (h : writeClock x ++ ['Z'] = writeClock y ++ ['Z']) :
    x.hour = y.hour ∧ x.minute = y.minute ∧ x.shownSecond = y.shownSecond ∧ x.milli = y.milli := by
  have hx₁ := x.hour_le
  have hy₁ := y.hour_le
  have hx₂ := x.minute_le
  have hy₂ := y.minute_le
  have hx₃ := hx.shownSecond_le
  have hy₃ := hy.shownSecond_le
  rw [writeClock_eq, writeClock_eq] at h
  obtain ⟨hh, h⟩ := padded_append_inj (by decide) (by omega) (by omega) h
  obtain ⟨hm, h⟩ := padded_append_inj (by decide) (by omega) (by omega) (List.cons.inj h).2
  obtain ⟨hs, h⟩ := padded_append_inj (by decide) (by omega) (by omega) (List.cons.inj h).2
  obtain ⟨hn, -⟩ := padded_append_inj (by decide) x.milli_lt y.milli_lt (List.cons.inj h).2
  exact ⟨hh, hm, hs, hn⟩

-- Two moments of one text are the same to the millisecond, in whatever year.
theorem cut_eq_of_write_eq (hx : x.Proper) (hy : y.Proper) (hex : x.EndsMinute) (hey : y.EndsMinute)
    (h : x.write = y.write) : x.cut = y.cut := by
  have hl : writeDate x.day ++ 'T' :: (writeClock x ++ ['Z']) =
      writeDate y.day ++ 'T' :: (writeClock y ++ ['Z']) := String.ofList_injective h
  have hd := congrArg (dateWith looseYear loosePart) hl
  rw [dateWith_loose, dateWith_loose] at hd
  obtain ⟨hp, hc⟩ := Prod.mk.inj (Option.some.inj hd)
  obtain ⟨h₁, h₂, h₃, h₄⟩ := writeClock_inj hx hy (List.cons.inj hc).2
  have hday : x.day = y.day := congrArg Parts.date hp
  rw [← onDay_parts hx hex, ← onDay_parts hy hey, hday, h₁, h₂, h₃, h₄]

theorem Proper.cut (h : m.Proper) : m.cut.Proper := by
  unfold Proper nanosInSecond at *
  unfold Moment.cut
  dsimp only
  omega

theorem EndsMinute.cut (h : m.EndsMinute) : m.cut.EndsMinute := by
  intro hl
  unfold Moment.cut at hl ⊢
  exact h (by dsimp only at hl; omega)

theorem cut_cut : m.cut.cut = m.cut := by
  unfold Moment.cut
  rw [mk.injEq]
  dsimp only
  omega

theorem of_add?_eq_some (hp : m.Proper) (h : m.add? n = some later) :
    later = m.ahead (m.nano + 1000000 * n) ∧ Day.inRange later.day.year := by
  rw [add?_eq hp] at h
  split at h
  case isTrue hr =>
    obtain rfl := Option.some.inj h
    exact ⟨rfl, hr⟩
  case isFalse => cases h

-- A step from where the text of a first one ends comes to the same text as both of them together, unless
-- they straddle a leap second.
theorem add?_cut_iff (hp : m.Proper) (he : m.EndsMinute) (hx : m.add? n = some x)
    (hy : m.add? (n + k) = some y) :
    (∃ z, x.cut.add? k = some z ∧ z.write = y.write) ↔ ¬m.Straddles n k := by
  have hpx := hp.add? hx
  have hpy := hp.add? hy
  obtain ⟨rfl, -⟩ := of_add?_eq_some hp hx
  obtain ⟨rfl, hr⟩ := of_add?_eq_some hp hy
  have hex : (m.ahead (m.nano + 1000000 * n)).EndsMinute := he.ahead
  have hey : (m.ahead (m.nano + 1000000 * (n + k))).EndsMinute := he.ahead
  rw [← ahead_ahead_iff rfl rfl]
  generalize m.ahead (m.nano + 1000000 * n) = x at hpx hex ⊢
  generalize m.ahead (m.nano + 1000000 * (n + k)) = y at hpy hey hr ⊢
  constructor
  · rintro ⟨z, hz, hw⟩
    obtain ⟨rfl, -⟩ := of_add?_eq_some hpx.cut hz
    have hpz := hpx.cut.add? hz
    have hez := hex.cut.ahead (v := x.cut.nano + 1000000 * k)
    have hc := cut_eq_of_write_eq hpz hpy hez hey hw
    rwa [ahead_cut_nano, cut_cut] at hc
  · intro h
    refine ⟨y.cut, ?_, write_cut⟩
    rw [add?_eq hpx.cut, ahead_cut_nano, h]
    exact if_pos hr

end Storyworld.Moment
