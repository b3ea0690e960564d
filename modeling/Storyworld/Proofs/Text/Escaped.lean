import Storyworld.Formula.Lexer
import Storyworld.Path.Parser

/-!
Between quotes a backslash takes the next character as it is. So the texts in formulas are read, and the
names in paths.
-/

namespace Storyworld

variable {quote : Char} {name body s rest : List Char}

-- Between double quotes only these two are not read as themselves.
def Text.escaped (c : Char) : List Char :=
  if c = '"' ∨ c = '\\' then ['\\', c] else [c]

theorem Token.quotedBody_escaped :
    quotedBody '"' (s.flatMap Text.escaped ++ '"' :: rest) = some (s, rest) := by
  induction s
  case nil =>
    rw [List.flatMap_nil, List.nil_append, quotedBody.eq_def]
    rfl
  case cons c s ih =>
    rw [List.flatMap_cons, List.append_assoc, Text.escaped]
    split
    case isTrue =>
      rw [List.cons_append, quotedBody.eq_def]
      simp [ih]
    case isFalse h =>
      rw [not_or] at h
      rw [List.singleton_append, quotedBody.eq_def]
      simp [h, ih]

-- A name ends where a text would, and has the characters that the text would have.
theorem Path.quoted_of_quotedBody (h : Token.quotedBody quote s = some (body, rest)) :
    quoted quote name s = closing (.key (.ofList (name ++ body))) rest := by
  fun_induction Token.quotedBody quote s generalizing name body
  case case1 => cases h
  case case2 =>
    cases h
    rw [quoted.eq_def]
    simp
  case case3 => cases h
  case case4 d s hq ih =>
    obtain ⟨⟨body, r⟩, hb, he⟩ := Option.map_eq_some_iff.mp h
    cases he
    rw [quoted.eq_def]
    simp [hq, ih hb]
  case case5 c s hq hb ih =>
    obtain ⟨⟨body, r⟩, hr, he⟩ := Option.map_eq_some_iff.mp h
    cases he
    rw [quoted.eq_def]
    simp [hq, hb, ih hr]

end Storyworld
