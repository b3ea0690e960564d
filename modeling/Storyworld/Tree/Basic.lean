import Storyworld.Tree.Number

/-!
The state of a story: a tree of maps and lists with values at its leaves. Maps keep their entries in
the order in which the keys came.
-/

namespace Storyworld

inductive Tree where
  | null
  | bool (b : Bool)
  | num (n : Number)
  | str (s : String)
  | arr (items : List Tree)
  | obj (fields : List (String × Tree))
deriving Inhabited

abbrev Fields := List (String × Tree)

namespace Tree

mutual

def decEq : (a b : Tree) → Decidable (a = b)
  | null, b => match b with
    | null => isTrue rfl
    | bool _ | num _ | str _ | arr _ | obj _ => isFalse nofun
  | bool x, b => match b with
    | bool y => decidable_of_iff (x = y) (by simp)
    | null | num _ | str _ | arr _ | obj _ => isFalse nofun
  | num x, b => match b with
    | num y => decidable_of_iff (x = y) (by simp)
    | null | bool _ | str _ | arr _ | obj _ => isFalse nofun
  | str x, b => match b with
    | str y => decidable_of_iff (x = y) (by simp)
    | null | bool _ | num _ | arr _ | obj _ => isFalse nofun
  | arr xs, b => match b with
    | arr ys =>
      have := decEqItems xs ys
      decidable_of_iff (xs = ys) (by simp)
    | null | bool _ | num _ | str _ | obj _ => isFalse nofun
  | obj xs, b => match b with
    | obj ys =>
      have := decEqFields xs ys
      decidable_of_iff (xs = ys) (by simp)
    | null | bool _ | num _ | str _ | arr _ => isFalse nofun

def decEqItems : (xs ys : List Tree) → Decidable (xs = ys)
  | [], ys => match ys with
    | [] => isTrue rfl
    | _ :: _ => isFalse nofun
  | x :: xs, ys => match ys with
    | [] => isFalse nofun
    | y :: ys =>
      have := decEq x y
      have := decEqItems xs ys
      decidable_of_iff (x = y ∧ xs = ys) (by simp)

def decEqFields : (xs ys : Fields) → Decidable (xs = ys)
  | [], ys => match ys with
    | [] => isTrue rfl
    | _ :: _ => isFalse nofun
  | (j, x) :: xs, ys => match ys with
    | [] => isFalse nofun
    | (k, y) :: ys =>
      have := decEq x y
      have := decEqFields xs ys
      decidable_of_iff ((j = k ∧ x = y) ∧ xs = ys) (by simp)

end

instance : DecidableEq Tree := decEq

def kind : Tree → String
  | null => "null"
  | bool _ => "boolean"
  | num _ => "number"
  | str _ => "string"
  | arr _ => "array"
  | obj _ => "object"

def isComposite : Tree → Bool
  | arr _ | obj _ => true
  | _ => false

def ofInt (n : Int) (h : Storable n := by decide) : Tree :=
  num (.int n h)

def emptyMap : Tree :=
  obj []

end Tree

namespace Fields

def get? (key : String) : Fields → Option Tree
  | [] => none
  | (k, v) :: r => if k = key then some v else get? key r

-- The entry of `key` changed where it stands; a new one comes last.
def alter (key : String) (f : Option Tree → Tree) : Fields → Fields
  | [] => [(key, f none)]
  | (k, v) :: r => if k = key then (k, f (some v)) :: r else (k, v) :: alter key f r

def put (key : String) (v : Tree) (fields : Fields) : Fields :=
  fields.alter key fun _ => v

def erase (key : String) : Fields → Fields
  | [] => []
  | (k, v) :: r => if k = key then r else (k, v) :: erase key r

-- Entries put one after the other: the last value of a key counts, its first place stays.
def ofList (entries : List (String × Tree)) : Fields :=
  entries.foldl (fun fields e => fields.put e.1 e.2) []

def keys (fields : Fields) : List String :=
  fields.map Prod.fst

variable {fields : Fields} {key other : String} {f : Option Tree → Tree} {v : Tree}

@[simp] theorem get?_nil : get? key [] = none := rfl

theorem get?_alter_self : get? key (alter key f fields) = some (f (get? key fields)) := by
  fun_induction alter key f fields <;> simp_all [get?]

theorem get?_alter_of_ne (h : other ≠ key) : get? other (alter key f fields) = get? other fields := by
  fun_induction alter key f fields <;> simp_all [get?, Ne.symm h]

theorem get?_put_self : get? key (put key v fields) = some v :=
  get?_alter_self

theorem get?_put_of_ne (h : other ≠ key) : get? other (put key v fields) = get? other fields :=
  get?_alter_of_ne h

theorem get?_erase_of_ne (h : other ≠ key) : get? other (erase key fields) = get? other fields := by
  fun_induction erase key fields <;> simp_all [get?, Ne.symm h]

theorem notMem_keys_cons {e : String × Tree} :
    key ∉ keys (e :: fields) ↔ key ≠ e.1 ∧ key ∉ keys fields := by
  simp [keys]

theorem get?_eq_none_iff : get? key fields = none ↔ key ∉ keys fields := by
  fun_induction get? key fields <;> simp_all [keys, eq_comm]

end Fields

namespace Tree

def field? (key : String) : Tree → Option Tree
  | obj fields => Fields.get? key fields
  | _ => none

def asBool? : Tree → Option Bool
  | bool b => some b
  | _ => none

def asString? : Tree → Option String
  | str s => some s
  | _ => none

def asItems? : Tree → Option (List Tree)
  | arr items => some items
  | _ => none

def asFields? : Tree → Option Fields
  | obj fields => some fields
  | _ => none

mutual

-- `t` with every key once in its map, by the rule of `Fields.ofList`.
def distinct : Tree → Tree
  | arr items => arr (distinctItems items)
  | obj fields => obj (Fields.ofList (distinctFields fields))
  | null => null
  | bool b => bool b
  | num n => num n
  | str s => str s

def distinctItems : List Tree → List Tree
  | [] => []
  | x :: xs => distinct x :: distinctItems xs

def distinctFields : List (String × Tree) → List (String × Tree)
  | [] => []
  | (k, v) :: fields => (k, distinct v) :: distinctFields fields

end

end Tree

end Storyworld
