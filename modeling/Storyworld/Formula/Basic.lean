namespace Storyworld

inductive Op where
  | add
  | sub
  | mul
  | div
  | mod
  | pow
deriving DecidableEq

def Op.symbol : Op → Char
  | add => '+'
  | sub => '-'
  | mul => '*'
  | div => '/'
  | mod => '%'
  | pow => '^'

inductive Formula where
  | number (x : Float)
  | text (s : String)
  | symbol (name : String)
  | neg (e : Formula)
  | binary (op : Op) (lhs rhs : Formula)
  | factorial (e : Formula)
  | call (name : String) (args : List Formula)
  | matrix (items : List Formula)

namespace Formula

instance : Inhabited Formula := ⟨symbol ""⟩

mutual

-- The name of a function is no symbol.
def mentions (name : String) : Formula → Bool
  | number _ | text _ => false
  | symbol n => n == name
  | neg e | factorial e => mentions name e
  | binary _ a b => mentions name a || mentions name b
  | call _ es | matrix es => anyMentions name es

def anyMentions (name : String) : List Formula → Bool
  | [] => false
  | e :: es => mentions name e || anyMentions name es

end

mutual

def height : Formula → Nat
  | number _ | text _ | symbol _ => 1
  | neg e | factorial e => height e + 1
  | binary _ a b => max (height a) (height b) + 1
  | call _ es | matrix es => heightOfAll es + 1

def heightOfAll : List Formula → Nat
  | [] => 0
  | e :: es => max (height e) (heightOfAll es)

end

mutual

def size : Formula → Nat
  | number _ | text _ | symbol _ => 1
  | neg e | factorial e => size e + 1
  | binary _ a b => size a + size b + 1
  | call _ es | matrix es => sizeOfAll es + 1

def sizeOfAll : List Formula → Nat
  | [] => 0
  | e :: es => size e + sizeOfAll es

end

def apply (name : String) (e : Formula) : Formula :=
  call name [e]

variable {name : String} {e : Formula} {es : List Formula}

theorem anyMentions_eq : anyMentions name es = es.any (mentions name) := by
  induction es with
  | nil => simp [anyMentions]
  | cons e es ih => simp [anyMentions, ih]

theorem size_pos : 0 < e.size := by
  cases e <;> simp [size]

end Formula

end Storyworld
