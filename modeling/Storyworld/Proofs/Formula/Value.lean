import Storyworld.Proofs.Formula.Exact
import Storyworld.Proofs.Formula.Reading

/-!
The exact value of a formula, and what regrouping does to it: nothing, unless a product takes in a row
that has a remainder in it.
-/

namespace Storyworld

-- The rational number that a finite float is.
def Binary.toRat? (x : Float) : Option ℚ :=
  match x.toModel.unpack with
  | .zero _ => some 0
  | .finite s m e _ => some ((s.apply m : ℤ) * 2 ^ e)
  | _ => none

namespace Formula

-- What the names stand for. Functions, powers and factorials may be undefined anywhere.
structure Interpretation where
  symbol : String → ℚ
  call : String → List Exact → Option Exact
  power : Exact → Exact → Option Exact
  factorial : Exact → Option Exact

def Interpretation.operate (i : Interpretation) (op : Op) (x y : Exact) : Option Exact :=
  match op with
  | .add => Exact.zip (· + ·) x y
  | .sub => Exact.zip (· - ·) x y
  | .mul => Exact.product x y
  | .div => Exact.divide x y
  | .mod => Exact.modulo x y
  | .pow => i.power x y

mutual

def value (i : Interpretation) : Formula → Option Exact
  | number x => (Binary.toRat? x).map .number
  | text _ => none
  | symbol name => some (.number (i.symbol name))
  | neg e => (value i e).map (Exact.map (- ·))
  | binary op a b => do i.operate op (← value i a) (← value i b)
  | factorial e => do i.factorial (← value i e)
  | call name es => do i.call name (← values i es)
  | matrix es => (values i es).map .matrix

def values (i : Interpretation) : List Formula → Option (List Exact)
  | [] => some []
  | e :: es => do return (← value i e) :: (← values i es)

end

variable {i : Interpretation} {op op' : Op} {e a b : Formula} {es : List Formula} {x y z u v : Exact}

theorem value_binary : (binary op a b).value i = some z ↔
    ∃ x y, a.value i = some x ∧ b.value i = some y ∧ i.operate op x y = some z := by
  simp [value, Option.bind_eq_some_iff]

-- `x + (y - u)` is `(x + y) - u`, and `x * (y / u)` is `(x * y) / u`.
theorem operate_regroup (hop : op = .add ∨ op = .mul) (hl : op'.precedence = op.precedence)
    (hm : op' ≠ .mod) (hv : i.operate op' y u = some v) (hz : i.operate op x v = some z) :
    ∃ w, i.operate op x y = some w ∧ i.operate op' w u = some z := by
  obtain rfl | rfl := hop <;> cases op'
  case inl.add => exact Exact.zip_regroup (fun s t u => (add_assoc s t u).symm) hv hz
  case inl.sub => exact Exact.zip_regroup (fun s t u => (add_sub_assoc s t u).symm) hv hz
  case inr.mul => exact Exact.product_product hv hz
  case inr.div => exact Exact.product_divide hv hz
  case inr.mod => exact absurd rfl hm
  all_goals cases hl

-- A remainder is taken in the row of products that the formula makes up.
def rowHasMod : Formula → Bool
  | binary op a _ => op = .mod || op.precedence = 2 && rowHasMod a
  | _ => false

theorem rowHasMod_binary (h : (binary op a b).rowHasMod = false) :
    op ≠ .mod ∧ (op.precedence = 2 → a.rowHasMod = false) := by
  simpa [rowHasMod] using h

-- No product takes in a row with a remainder.
def KeepsRemainders : Formula → Prop
  | binary op _ b => regroups op b → b.rowHasMod = false
  | _ => True

theorem regroups_op (h : regroups op b) : op = .add ∨ op = .mul := by
  unfold regroups at h
  split at h <;> simp_all

theorem rowHasMod_attach (hop : op ≠ .mod) (ha : op.precedence = 2 → a.rowHasMod = false)
    (hb : b.rowHasMod = false) : (attach op a b).rowHasMod = false := by
  induction b using Formula.rec (motive_2 := fun _ => True) with
  | binary op' l r ihl _ =>
    have ⟨hm, hl⟩ := rowHasMod_binary hb
    rw [attach]
    split
    case isTrue hp => simpa [rowHasMod, hm] using fun h => ihl (hl h)
    case isFalse   => simpa [rowHasMod, hop] using ha
  | nil | cons => trivial
  | _ => simpa [attach, rowHasMod, hop] using ha

theorem rowHasMod_regrouped (h : e.Every KeepsRemainders) (he : e.rowHasMod = false) :
    e.regrouped.rowHasMod = false := by
  induction e using Formula.rec (motive_2 := fun _ => True) with
  | binary op a b iha ihb =>
    have ⟨hm, ha⟩ := rowHasMod_binary he
    have ha := fun hp => iha h.2.1 (ha hp)
    rw [regrouped]
    split
    case isTrue hr => exact rowHasMod_attach hm ha (ihb h.2.2 (h.1 hr))
    case isFalse   => simpa [rowHasMod, hm] using ha
  | nil | cons => trivial
  | _ => rfl

theorem value_attach (hop : op = .add ∨ op = .mul) (hb : op = .mul → b.rowHasMod = false)
    (ha : a.value i = some x) (hv : b.value i = some y) (hz : i.operate op x y = some z) :
    (attach op a b).value i = some z := by
  induction b using Formula.rec (motive_2 := fun _ => True) generalizing y z with
  | binary op' l r ihl _ =>
    rw [attach]
    split
    case isTrue hp =>
      have hm : op' ≠ .mod ∧ (op = .mul → l.rowHasMod = false) := by
        obtain rfl | rfl := hop
        · refine ⟨?_, by simp⟩
          rintro rfl
          cases hp
        · obtain ⟨hm, hl⟩ := rowHasMod_binary (hb rfl)
          exact ⟨hm, fun _ => hl hp⟩
      obtain ⟨y', u, hy', hu, hyu⟩ := value_binary.mp hv
      obtain ⟨w, hw, hwz⟩ := operate_regroup hop hp hm.1 hyu hz
      exact value_binary.mpr ⟨w, u, ihl hm.2 hy' hw, hu, hwz⟩
    case isFalse => exact value_binary.mpr ⟨x, y, ha, hv, hz⟩
  | nil | cons => trivial
  | _ => exact value_binary.mpr ⟨x, y, ha, hv, hz⟩

theorem value_regrouped (h : e.Every KeepsRemainders) (hv : e.value i = some v) :
    e.regrouped.value i = some v := by
  induction e using Formula.rec (motive_2 := fun es => ∀ vs, EveryOf KeepsRemainders es →
    values i es = some vs → values i (regroupedOf es) = some vs) generalizing v with
  | number | symbol => exact hv
  | text => cases hv
  | neg e ih =>
    obtain ⟨u, hu, rfl⟩ := Option.map_eq_some_iff.mp hv
    exact Option.map_eq_some_iff.mpr ⟨u, ih h.2 hu, rfl⟩
  | binary op a b iha ihb =>
    obtain ⟨x, y, hx, hy, hv⟩ := value_binary.mp hv
    have hx := iha h.2.1 hx
    have hy := ihb h.2.2 hy
    rw [regrouped]
    split
    case isTrue hr =>
      exact value_attach (regroups_op hr) (fun _ => rowHasMod_regrouped h.2.2 (h.1 hr)) hx hy hv
    case isFalse => exact value_binary.mpr ⟨x, y, hx, hy, hv⟩
  | factorial e ih =>
    obtain ⟨u, hu, hv⟩ := Option.bind_eq_some_iff.mp hv
    exact Option.bind_eq_some_iff.mpr ⟨u, ih h.2 hu, hv⟩
  | call name es ih =>
    obtain ⟨us, hu, hv⟩ := Option.bind_eq_some_iff.mp hv
    exact Option.bind_eq_some_iff.mpr ⟨us, ih us h.2 hu, hv⟩
  | matrix es ih =>
    obtain ⟨us, hu, rfl⟩ := Option.map_eq_some_iff.mp hv
    exact Option.map_eq_some_iff.mpr ⟨us, ih us h.2 hu, rfl⟩
  | nil => assumption
  | cons e es ih ihs =>
    rename_i vs h hv
    simp only [values, regroupedOf, Option.bind_eq_bind, Option.bind_eq_some_iff] at hv ⊢
    obtain ⟨x, hx, xs, hxs, hv⟩ := hv
    exact ⟨x, ih h.1 hx, xs, ihs xs h.2 hxs, hv⟩

end Formula

end Storyworld
