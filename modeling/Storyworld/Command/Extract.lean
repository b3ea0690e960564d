import Storyworld.Command.Basic
import Storyworld.Command.Quoting
import Storyworld.Text.Blank
import Storyworld.Text.Search

/-!
Finding the calls `_.verb(…);` in a text. What is no complete call is passed over: the scan goes on
right behind the part that it had understood.
-/

namespace Storyworld.Command

def bracketDepth (depth : Int) (c : Char) : Int :=
  if c = '(' ∨ c = '[' ∨ c = '{' then depth + 1
  else if c = ')' ∨ c = ']' ∨ c = '}' then depth - 1
  else depth

-- The arguments in a text, of which `current` has been read: the parts between commas outside all
-- brackets and quotes, without blanks around them. A last part must not be blank.
def splitFrom (q : Quoting) (depth : Int) (current : List Char) : List Char → List String
  | [] =>
    let last := Text.trim current
    if last.isEmpty then [] else [.ofList last]
  | c :: s =>
    if q.isPlain c then
      if c = ',' ∧ depth = 0 then .ofList (Text.trim current) :: splitFrom (q.next c) depth [] s
      else splitFrom (q.next c) (bracketDepth depth c) (current ++ [c]) s
    else splitFrom (q.next c) depth (current ++ [c]) s

def splitArguments (s : List Char) : List String :=
  splitFrom {} 0 [] s

-- What stands before the closing parenthesis, `depth` others still open, and what behind it.
def closing? (q : Quoting) (depth : Nat) : List Char → Option (List Char × List Char)
  | [] => none
  | c :: s =>
    let onward (depth : Nat) := (closing? (q.next c) depth s).map fun (inner, rest) => (c :: inner, rest)
    if q.isPlain c then
      if c = '(' then onward (depth + 1)
      else if c = ')' then
        match depth with
        | 0 => some ([], s)
        | depth + 1 => onward depth
      else onward depth
    else onward depth

def opening (v : Verb) : List Char :=
  '_' :: '.' :: (v.word.toList ++ ['('])

def site? (s : List Char) : Option (Verb × List Char) :=
  Verb.all.findSome? fun v => (Text.behind? (opening v) s).map (v, ·)

-- The comment behind a call, blanks and tabs before it allowed, and the text from its line end.
def readReason (s : List Char) : String × List Char :=
  match s.dropWhile fun c => c == ' ' || c == '\t' with
  | '/' :: '/' :: body =>
    let inLine (c : Char) : Bool := c != '\n' && c != '\r'
    (.ofList (Text.trim (body.takeWhile inLine)), body.dropWhile inLine)
  | _ => ("", s)

def callText (v : Verb) (inner : List Char) : String :=
  .ofList (opening v ++ inner ++ [')', ';'])

def readCall (s : List Char) : Option Command × List Char :=
  match site? s with
  | none => (none, s.tail)
  | some (verb, body) => match closing? {} 0 body with
    -- The call never closes, but others may stand where its arguments would.
    | none => (none, body)
    | some (inner, ';' :: rest) =>
      let args := splitArguments inner
      let (reason, rest) := readReason rest
      if verb.accepts args.length then (some ⟨verb, callText verb inner, args, reason⟩, rest)
      else (none, rest)
    | some (_, rest) => (none, rest)

variable {s rest inner : List Char}

theorem length_lt_of_closing? {q : Quoting} {depth : Nat} (h : closing? q depth s = some (inner, rest)) :
    rest.length < s.length := by
  induction s generalizing q depth inner with
  | nil => simp [closing?] at h
  | cons c s ih =>
    have key : ∀ d, (closing? (q.next c) d s).map (fun p => (c :: p.1, p.2)) = some (inner, rest) →
        rest.length < s.length + 1 := by
      intro d hd
      obtain ⟨⟨i, r⟩, hr, he⟩ := Option.map_eq_some_iff.1 hd
      cases he
      exact Nat.lt_succ_of_lt (ih hr)
    simp only [closing?] at h
    split at h
    · split at h
      · exact key _ h
      · split at h
        · split at h
          · cases h; simp
          · exact key _ h
        · exact key _ h
    · exact key _ h

theorem length_lt_of_site? {v : Verb} (h : site? s = some (v, rest)) : rest.length < s.length := by
  obtain ⟨w, _, hw⟩ := List.exists_of_findSome?_eq_some h
  obtain ⟨r, hr, he⟩ := Option.map_eq_some_iff.1 hw
  cases he
  have := Text.length_of_behind? hr
  simp [opening] at this
  omega

theorem length_readReason_le : (readReason s).2.length ≤ s.length := by
  unfold readReason
  have hd := (List.dropWhile_sublist (l := s) fun c => c == ' ' || c == '\t').length_le
  split
  · rename_i body h
    have := (List.dropWhile_sublist (l := body) fun c => c != '\n' && c != '\r').length_le
    simp only [h, List.length_cons] at hd
    simp only
    omega
  · exact Nat.le_refl _

theorem length_readCall_lt (h : s ≠ []) : (readCall s).2.length < s.length := by
  have hs : 0 < s.length := List.length_pos_iff.2 h
  unfold readCall
  split
  · simp; omega
  · rename_i v body hv
    have hb := length_lt_of_site? hv
    split
    · exact hb
    · rename_i inner rest hc
      have h1 := length_lt_of_closing? hc
      have h2 := length_readReason_le (s := rest)
      simp only [List.length_cons] at h1
      simp only
      split <;> (simp only; omega)
    · rename_i inner rest _ hc
      have := length_lt_of_closing? hc
      simp only
      omega

structure Occurrence where
  start : Nat
  command : Command
deriving DecidableEq

-- The commands in `s`, which is the end of a text with `whole` characters.
def occurrences (whole : Nat) (s : List Char) : List Occurrence :=
  if h : s = [] then []
  else
    have := length_readCall_lt h
    let later := occurrences whole (readCall s).2
    match (readCall s).1 with
    | some command => ⟨whole - s.length, command⟩ :: later
    | none => later
termination_by s.length

def extract (text : String) : List Command :=
  (occurrences text.length text.toList).map (·.command)

end Storyworld.Command
