namespace Storyworld.Text

def behind? : (piece s : List Char) → Option (List Char)
  | [], s => some s
  | w :: piece, c :: s => if c = w then behind? piece s else none
  | _ :: _, [] => none

-- How many characters stand before the first place of a piece.
def find? (piece : List Char) : List Char → Option Nat
  | [] => if piece.isEmpty then some 0 else none
  | c :: s => if (behind? piece (c :: s)).isSome then some 0 else (find? piece s).map (· + 1)

def afterFirst? (piece s : List Char) : Option (List Char) :=
  (find? piece s).map fun n => s.drop (n + piece.length)

def replaceWithin (old new : List Char) : (fuel : Nat) → List Char → List Char
  | 0, s => s
  | _ + 1, [] => []
  | fuel + 1, c :: s => match behind? old (c :: s) with
    | some rest => new ++ replaceWithin old new fuel rest
    | none => c :: replaceWithin old new fuel s

-- An empty piece has a place before each character and at the end.
def replace (old new s : String) : String :=
  .ofList <|
    if old.isEmpty then s.toList.flatMap (fun c => new.toList ++ [c]) ++ new.toList
    else replaceWithin old.toList new.toList s.length s.toList

variable {piece s rest : List Char}

theorem eq_append_of_behind? (h : behind? piece s = some rest) : s = piece ++ rest := by
  fun_induction behind? piece s <;> simp_all

@[simp] theorem behind?_append : behind? piece (piece ++ rest) = some rest := by
  induction piece <;> simp_all [behind?]

theorem length_of_behind? (h : behind? piece s = some rest) :
    s.length = piece.length + rest.length := by
  rw [eq_append_of_behind? h, List.length_append]

end Storyworld.Text
