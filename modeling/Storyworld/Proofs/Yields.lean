/-!
What comes of attempts that may fail, if anything does.
-/

namespace Storyworld

-- What comes of an attempt, if anything does, has the property.
def Yields {ε α : Type} (P : α → Prop) (r : Except ε α) : Prop :=
  ∀ a, r = .ok a → P a

variable {ε α β : Type} {P Q : α → Prop} {R : β → Prop} {a : α} {e : ε} {r : Except ε α}
  {f : α → Except ε β}

theorem yields_ok (h : P a) : Yields P (.ok a : Except ε α) := by
  rintro _ ⟨⟩
  exact h

theorem yields_error : Yields P (.error e) :=
  nofun

theorem Yields.mono (h : Yields P r) (hq : ∀ a, P a → Q a) : Yields Q r :=
  fun a ha => hq a (h a ha)

theorem Yields.bind (h : Yields P r) (hf : ∀ a, P a → Yields R (f a)) : Yields R (r >>= f) := by
  cases r
  case error => exact yields_error
  case ok a  => exact hf a (h a rfl)

theorem Yields.map {g : α → β} (h : Yields P r) (hg : ∀ a, P a → R (g a)) : Yields R (g <$> r) := by
  cases r
  case error => exact yields_error
  case ok a  => exact yields_ok (hg a (h a rfl))

theorem Yields.mapError {ε' : Type} {g : ε → ε'} (h : Yields P r) : Yields P (r.mapError g) := by
  cases r
  case error => exact yields_error
  case ok a  => exact yields_ok (h a rfl)

theorem yields_map {g : α → β} (hg : ∀ a, R (g a)) : Yields R (r.map g) := by
  cases r
  case error => exact yields_error
  case ok a  => exact yields_ok (hg a)

theorem yields_bind (hf : ∀ a, Yields R (f a)) : Yields R (r >>= f) :=
  Yields.bind (P := fun _ => True) (fun _ _ => trivial) fun a _ => hf a

theorem ok_of_toOption (h : r.toOption = some a) : r = .ok a := by
  cases r <;> cases h
  rfl

theorem exists_of_bind_eq_ok {b : β} (h : r >>= f = .ok b) : ∃ a, r = .ok a ∧ f a = .ok b := by
  cases r
  case error => cases h
  case ok a  => exact ⟨a, rfl, h⟩

theorem exists_of_map_eq_ok {f : α → β} {b : β} (h : r.map f = .ok b) : ∃ a, r = .ok a ∧ f a = b := by
  cases r <;> cases h
  exact ⟨_, rfl, rfl⟩

-- What there is, if anything, has the property.
def Gives {α : Type} (P : α → Prop) (x : Option α) : Prop :=
  ∀ a, x = some a → P a

variable {x : Option α} {g : α → Option β}

theorem gives_some (h : P a) : Gives P (some a) := by
  rintro _ ⟨⟩
  exact h

theorem gives_none : Gives P (none : Option α) :=
  nofun

theorem gives_ite {p : Prop} [Decidable p] {y : Option α} (h : Gives P x) (h' : Gives P y) :
    Gives P (if p then x else y) := by
  split
  · exact h
  · exact h'

theorem Gives.bind (h : Gives P x) (hg : ∀ a, P a → Gives R (g a)) : Gives R (x >>= g) := by
  cases x
  case none   => exact gives_none
  case some a => exact hg a (h a rfl)

theorem gives_bind (hg : ∀ a, Gives R (g a)) : Gives R (x >>= g) :=
  Gives.bind (P := fun _ => True) (fun _ _ => trivial) fun a _ => hg a

theorem Gives.map {f : α → β} (h : Gives P x) (hf : ∀ a, P a → R (f a)) : Gives R (x.map f) := by
  cases x
  case none   => exact gives_none
  case some a => exact gives_some (hf a (h a rfl))

theorem gives_map {f : α → β} (hf : ∀ a, R (f a)) : Gives R (x.map f) :=
  Gives.map (P := fun _ => True) (fun _ _ => trivial) fun a _ => hf a

end Storyworld
