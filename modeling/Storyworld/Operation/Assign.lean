import Storyworld.Calendar.Text
import Storyworld.Operation.Insert
import Storyworld.Tree.Value

/-!
Operations on the value that stands at a path: `set` replaces it and `add` counts on from it. Of a
described value both take the value alone, and the description stays.
-/

namespace Storyworld.State

variable (s : State) (path : Path)

-- Where the value at `path` is kept: with its description beside it, or by itself.
def slot (unwrap : Bool) : Except CommandError Path :=
  match s.stat.get? path with
  | none => .error (.pathNotFound path)
  | some v => .ok (if unwrap && v.scalarSlot?.isSome then path.child (.index 0) else path)

def overwrite (slot : Path) (new : Tree) : Applied × State :=
  let written := { s with stat := s.stat.set slot new }
  (.one path s!"{(s.valueAt slot).display}->{new.display}"
    (some ⟨path, s.valueAt path, written.valueAt path⟩), written)

-- The value as it is kept where a number was.
def asNumber (path : Path) (v : Tree) : Except CommandError Tree :=
  match v.toFloat?.bind Number.ofFloat? with
  | some n => .ok (.num n)
  | none => .error (.typeMismatch path (.noNumber v))

-- A number stays a number, except that null may take its place.
def put (flags : Flags) (v : Tree) : Except CommandError (Applied × State) := do
  let slot ← s.slot path !flags.strictSet
  match s.valueAt slot, v with
  | _, .null => return s.overwrite path slot .null
  | .num _, v => return s.overwrite path slot (← asNumber path v)
  | _, v => return s.overwrite path slot v

-- The sum of a value of the state and a step: numbers add up, and a date moves on by milliseconds.
def sum (old : Tree) (step : Float) : Except DeltaFault Tree :=
  match old with
  | .num n => match Number.ofFloat? (Decimal.settle (n.toFloat + step)) with
    | some sum => .ok (.num sum)
    | none => .error .infinite
  | .str text => match Moment.read? text with
    | none => .error (.noDate text)
    | some date => match date.add? (Binary.nearestInt step) with
      | some later => .ok (.str later.write)
      | none => .error .dateRange
  | other => .error (.addTo other.kind)

def add (delta : Tree) : Except CommandError (Applied × State) := do
  let slot ← s.slot path true
  let some step := delta.toFloat? | throw (.invalidDelta path (.noNumber delta))
  let new ← (sum (s.valueAt slot) step).mapError (.invalidDelta path)
  return s.overwrite path slot new

end Storyworld.State
