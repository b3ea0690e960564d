namespace Storyworld

inductive Verb where
  | set
  | insert
  | assign
  | remove
  | unset
  | delete
  | add
deriving DecidableEq

namespace Verb

def all : List Verb :=
  [set, insert, assign, remove, unset, delete, add]

theorem mem_all (v : Verb) : v ∈ all := by
  cases v <;> decide

def word : Verb → String
  | set => "set"
  | insert => "insert"
  | assign => "assign"
  | remove => "remove"
  | unset => "unset"
  | delete => "delete"
  | add => "add"

def ofWord? (word : String) : Option Verb :=
  all.find? (·.word == word)

theorem ofWord?_word (v : Verb) : ofWord? v.word = some v := by
  cases v <;> decide

def canonical : Verb → Verb
  | remove | unset => delete
  | assign => insert
  | v => v

@[simp] theorem canonical_canonical (v : Verb) : v.canonical.canonical = v.canonical := by
  cases v <;> rfl

def accepts (v : Verb) (count : Nat) : Bool :=
  match v.canonical with
  | set | insert => 2 ≤ count
  | delete => 1 ≤ count
  | add => count == 2
  | _ => false

end Verb

structure Command where
  verb : Verb
  -- The call as written, up to its semicolon.
  call : String
  -- The arguments as written, with their quotes and brackets.
  args : List String
  -- Empty without a comment behind the call.
  reason : String
deriving DecidableEq

end Storyworld
