import Storyworld.Json.Printer
import Storyworld.Proofs.Command.Argument
import Storyworld.Proofs.Decimal.Bare
import Storyworld.Proofs.Tree.Induction

/-!
JSON texts as arguments. A scan looks one character back to see whether a quote is escaped. So it takes
the last quote of a string that ends in a backslash for an escaped one; every other JSON text closes its
own quotes and brackets.
-/

namespace Storyworld

/-! ## The strings of a tree -/

-- Keys count, and values at any depth.
inductive Tree.Holds (s : String) : Tree → Prop
  | str : Holds s (.str s)
  | item {items : List Tree} {x : Tree} (h : x ∈ items) (hx : Holds s x) : Holds s (.arr items)
  | key {fields : List (String × Tree)} {v : Tree} (h : (s, v) ∈ fields) : Holds s (.obj fields)
  | value {fields : List (String × Tree)} {k : String} {v : Tree} (h : (k, v) ∈ fields)
      (hv : Holds s v) : Holds s (.obj fields)

namespace Tree

variable {s s' : String} {items : List Tree} {fields : List (String × Tree)}

@[simp] theorem holds_null : ¬null.Holds s := nofun

@[simp] theorem holds_bool {b : Bool} : ¬(bool b).Holds s := nofun

@[simp] theorem holds_num {n : Number} : ¬(num n).Holds s := nofun

@[simp] theorem holds_str : (str s').Holds s ↔ s = s' := by
  constructor
  · rintro ⟨⟩
    rfl
  · rintro rfl
    exact .str

@[simp] theorem holds_arr : (arr items).Holds s ↔ ∃ x ∈ items, x.Holds s := by
  constructor
  · rintro (_ | ⟨h, hx⟩)
    exact ⟨_, h, hx⟩
  · rintro ⟨x, h, hx⟩
    exact .item h hx

@[simp] theorem holds_obj : (obj fields).Holds s ↔ ∃ e ∈ fields, s = e.1 ∨ e.2.Holds s := by
  constructor
  · rintro (_ | _ | h | ⟨h, hv⟩)
    · exact ⟨_, h, .inl rfl⟩
    · exact ⟨_, h, .inr hv⟩
  · rintro ⟨⟨k, v⟩, h, rfl | hv⟩
    · exact .key h
    · exact .value h hv

end Tree

def EndsInBackslash (s : String) : Prop :=
  s.toList.getLast? = some '\\'

instance {s : String} : Decidable (EndsInBackslash s) :=
  inferInstanceAs (Decidable (_ = _))

namespace Command

open Quoting

variable {q : Quoting} {c o : Char} {least : Int} {escaped : Bool} {cs s : List Char}

/-! ## Strings -/

theorem plain_cons_quoted (hq : q.quote = some o) : q.plain (c :: s) = (q.next c).plain s := by
  simp [plain_cons, isPlain, hq]

-- What neither closes the quote nor escapes anything leaves the scan where it is.
theorem scan_quoted (h : ∀ c ∈ s, c ≠ o ∧ c ≠ '\\') :
    after ⟨some o, false⟩ s = ⟨some o, false⟩ ∧ plain ⟨some o, false⟩ s = [] := by
  induction s
  case nil => exact ⟨rfl, rfl⟩
  case cons c s ih =>
    have ⟨⟨ho, hb⟩, hs⟩ := List.forall_mem_cons.mp h
    have hn : next ⟨some o, false⟩ c = ⟨some o, false⟩ := by simp [next, ho, hb]
    rw [after_cons, plain_cons_quoted rfl, hn]
    exact ih hs

-- A backslash is doubled; another escape is one backslash and text that the scan passes over.
theorem escapeChar_cases (c : Char) :
    (c = '\\' ∧ Json.escapeChar c = ['\\', '\\']) ∨
    (c ≠ '\\' ∧ ∃ d s, Json.escapeChar c = '\\' :: d :: s ∧ d ≠ '\\' ∧ ∀ x ∈ s, x ≠ '"' ∧ x ≠ '\\') ∨
    (c ≠ '\\' ∧ c ≠ '"' ∧ Json.escapeChar c = [c]) := by
  have hx : ∀ n < 32, (Json.hexDigits 4 n).all fun x => x ≠ '"' ∧ x ≠ '\\' := by decide
  by_cases hb : c = '\\'
  case pos => exact .inl ⟨hb, by rw [hb]; rfl⟩
  case neg =>
    by_cases hs : Json.escapeChar c = [c]
    case pos =>
      have hq : c ≠ '"' := by
        rintro rfl
        simp [Json.escapeChar] at hs
      exact .inr <| .inr ⟨hb, hq, hs⟩
    case neg =>
      refine .inr <| .inl ⟨hb, ?_⟩
      revert hs
      fun_cases Json.escapeChar c
      case case2 h => simp_all
      case case8 h => exact fun _ => ⟨_, _, rfl, by decide, by simpa using hx _ h⟩
      case case9   => simp
      all_goals exact fun _ => ⟨_, _, rfl, by decide, by simp⟩

theorem scan_escapeChar :
    after ⟨some '"', escaped⟩ (Json.escapeChar c) = ⟨some '"', c == '\\'⟩ ∧
      plain ⟨some '"', escaped⟩ (Json.escapeChar c) = [] := by
  have hn {d : Char} (hd : d ≠ '\\') : next ⟨some '"', true⟩ d = ⟨some '"', false⟩ := by simp [next, hd]
  have he : next ⟨some '"', escaped⟩ '\\' = ⟨some '"', true⟩ := by simp [next]
  obtain ⟨rfl, h⟩ | ⟨hb, d, s, h, hd, hs⟩ | ⟨hb, hq, h⟩ := escapeChar_cases c
  · rw [h, after_cons, plain_cons_quoted rfl, he]
    exact ⟨rfl, rfl⟩
  · rw [h, after_cons, plain_cons_quoted rfl, he, after_cons, plain_cons_quoted rfl, hn hd,
      beq_eq_false_iff_ne.mpr hb]
    exact scan_quoted hs
  · rw [h, after_cons, plain_cons_quoted rfl]
    simp [next, hq]

theorem scan_escapes :
    after ⟨some '"', escaped⟩ (cs.flatMap Json.escapeChar) =
        ⟨some '"', (cs.getLast?.map (· == '\\')).getD escaped⟩ ∧
      plain ⟨some '"', escaped⟩ (cs.flatMap Json.escapeChar) = [] := by
  induction cs generalizing escaped
  case nil => exact ⟨rfl, rfl⟩
  case cons c cs ih =>
    have ⟨ha, hp⟩ := @scan_escapeChar c escaped
    have ⟨ha', hp'⟩ := @ih (c == '\\')
    rw [List.flatMap_cons, after_append, plain_append, ha, hp, ha', hp']
    refine ⟨?_, rfl⟩
    cases h : cs.getLast? <;> simp [List.getLast?_cons, h]

theorem scan_writeString {s : String} :
    after {} (Json.writeString s) = ⟨if EndsInBackslash s then some '"' else none, false⟩ ∧
      plain {} (Json.writeString s) = [] := by
  have ⟨ha, hp⟩ := @scan_escapes false s.toList
  have hn : next {} '"' = ⟨some '"', false⟩ := by decide
  have hq : plain {} ('"' :: (s.toList.flatMap Json.escapeChar ++ ['"'])) =
      plain ⟨some '"', false⟩ (s.toList.flatMap Json.escapeChar ++ ['"']) := rfl
  rw [Json.writeString, after_cons, hq, hn, after_append, plain_append, ha, hp]
  refine ⟨?_, rfl⟩
  by_cases he : EndsInBackslash s
  · simp [he, show s.toList.getLast? = some '\\' from he, next]
  · cases h : s.toList.getLast?
    case none   => simp [he, next]
    case some c =>
      have hc : c ≠ '\\' := by
        rintro rfl
        exact he h
      simp [he, hc, next]

theorem balanced_writeString {s : String} (h : ¬EndsInBackslash s) :
    Balanced least (Json.writeString s) := by
  have ⟨ha, hp⟩ := @scan_writeString s
  refine balanced_of_plain ?_ (by simp [hp])
  simp [ha, h]

theorem not_encloses_writeString {s : String} (h : EndsInBackslash s) :
    ¬Encloses {} 0 (Json.writeString s) := by
  intro he
  have := he.outside
  simp [scan_writeString.1, h] at this

/-! ## Bare words -/

theorem quote_after_of_unquoted (hq : q.quote = none) (h : ∀ c ∈ s, isQuote c = false) :
    (q.after s).quote = none := by
  induction s generalizing q
  case nil => exact hq
  case cons c s ih =>
    have ⟨hc, hs⟩ := List.forall_mem_cons.mp h
    exact ih (by simp [next, hq, hc]) hs

theorem balanced_of_bare (h : Text.Bare s) : Balanced least s := by
  have hne (c : Char) (hc : c ∈ s) (d : Char) (hd : Text.isBare d = false) : c ≠ d :=
    Text.ne_of_isBare (h c hc) hd
  refine balanced_of_plain (quote_after_of_unquoted rfl fun c hc => ?_) fun c hc => ?_
  · have hne := hne c hc
    simp [isQuote, hne '"' (by decide), hne '\'' (by decide), hne '\x60' (by decide)]
  · have hne := hne c (mem_of_mem_plain hc)
    simp [paren, bracket, hne '(' (by decide), hne ')' (by decide), hne '[' (by decide),
      hne ']' (by decide), hne '{' (by decide), hne '}' (by decide), hne ',' (by decide)]

theorem trimmed_of_bare (h : Text.Bare s) (hn : s ≠ []) : Text.Trimmed s where
  ne_nil := hn
  first c hc := Text.isBlank_eq_false_of_isBare <| h c <| List.mem_of_head? hc
  last c hc := Text.isBlank_eq_false_of_isBare <| h c <| List.mem_of_getLast? hc

theorem trimmed_wrapped (ho : Text.isBlank o = false) (hc : Text.isBlank c = false) :
    Text.Trimmed (o :: (s ++ [c])) where
  ne_nil := by simp
  first  := by simpa using ho
  last   := by simpa [List.getLast?_cons] using hc

/-! ## Trees -/

theorem writeItems_eq {items : List Tree} :
    Json.writeItems items = [','].intercalate (items.map Json.write) := by
  induction items
  case nil => simp [Json.writeItems]
  case cons x items ih =>
    cases items
    case nil          => simp [Json.writeItems, Json.moreItems]
    case cons y items =>
      rw [List.map_cons, List.map_cons, List.intercalate_cons_cons, ← List.map_cons, ← ih]
      simp [Json.writeItems, Json.moreItems]

def writeField (e : String × Tree) : List Char :=
  Json.writeString e.1 ++ ':' :: Json.write e.2

theorem writeFields_eq {fields : List (String × Tree)} :
    Json.writeFields fields = [','].intercalate (fields.map writeField) := by
  induction fields
  case nil => simp [Json.writeFields]
  case cons e fields ih =>
    cases fields
    case nil           => simp [Json.writeFields, Json.moreFields, writeField]
    case cons f fields =>
      rw [List.map_cons, List.map_cons, List.intercalate_cons_cons, ← List.map_cons, ← ih]
      simp [Json.writeFields, Json.moreFields, writeField]

theorem balanced_commas {parts : List (List Char)} (h : ∀ a ∈ parts, Balanced 0 a) :
    Balanced 0 ([','].intercalate parts) :=
  balanced_intercalate (fun a b ha hb => by simpa using ha.join hb separates_comma rfl (by simp)) h

theorem separates_colon : Separates ':' := by
  constructor <;> decide

theorem balanced_write {v : Tree} (h : ∀ s, v.Holds s → ¬EndsInBackslash s) :
    Balanced 1 (Json.write v) := by
  induction v using Tree.inductionOn
  case leaf v hv =>
    cases v
    case null          => exact balanced_of_bare (by decide)
    case bool b        => cases b <;> exact balanced_of_bare (by decide)
    case num n         => exact balanced_of_bare Number.bare_write
    case str s         => exact balanced_writeString (h s .str)
    case arr | obj     => cases hv
  case arr items ih =>
    have hi : Balanced 0 (Json.writeItems items) := by
      rw [writeItems_eq]
      refine balanced_commas fun a ha => ?_
      obtain ⟨x, hx, rfl⟩ := List.mem_map.mp ha
      exact (ih x hx fun s hs => h s (.item hx hs)).mono (by decide)
    exact hi.bracketed ⟨rfl, by decide, rfl⟩ ⟨rfl, by decide, rfl⟩ rfl rfl
  case obj fields ih =>
    have hf : Balanced 0 (Json.writeFields fields) := by
      rw [writeFields_eq]
      refine balanced_commas fun a ha => ?_
      obtain ⟨⟨k, v⟩, he, rfl⟩ := List.mem_map.mp ha
      have hv := ih (k, v) he fun s hs => h s (.value he hs)
      exact (balanced_writeString (h k (.key he))).join (hv.mono (by decide)) separates_colon rfl (by simp)
    exact hf.bracketed ⟨rfl, by decide, rfl⟩ ⟨rfl, by decide, rfl⟩ rfl rfl

theorem trimmed_write {v : Tree} : Text.Trimmed (Json.write v) := by
  cases v
  case null   => decide
  case bool b => cases b <;> decide
  case num n  => exact trimmed_of_bare Number.bare_write Number.write_ne_nil
  case str s  => exact trimmed_wrapped (by decide) (by decide)
  case arr    => exact trimmed_wrapped (by decide) (by decide)
  case obj    => exact trimmed_wrapped (by decide) (by decide)

end Command

end Storyworld
