import Storyworld.Json.Printer
import Storyworld.Proofs.Literal.Reading
import Storyworld.Proofs.Tree.KeysOnce

/-!
Printed trees read as literals. Apart from numbers, which the two notations write differently, a tree is
read back from its JSON text if it nests no deeper than literals may, and refused as too deep if it does.
-/

namespace Storyworld

/-! ## How deep a tree nests -/

namespace Tree

mutual

-- How many containers stand around each other at most.
def nesting : Tree → Nat
  | .arr items => nestingItems items + 1
  | .obj fields => nestingFields fields + 1
  | .null | .bool _ | .num _ | .str _ => 0

def nestingItems : List Tree → Nat
  | [] => 0
  | x :: xs => max (nesting x) (nestingItems xs)

def nestingFields : List (String × Tree) → Nat
  | [] => 0
  | (_, v) :: fields => max (nesting v) (nestingFields fields)

end

-- No value in the tree is a number.
inductive Numberless : Tree → Prop where
  | null : Numberless .null
  | bool {b : Bool} : Numberless (.bool b)
  | str {s : String} : Numberless (.str s)
  | arr {items : List Tree} (h : ∀ x ∈ items, Numberless x) : Numberless (.arr items)
  | obj {fields : Fields} (h : ∀ e ∈ fields, Numberless e.2) : Numberless (.obj fields)

variable {t : Tree} {n : Nat} {items : List Tree} {fields : Fields}

attribute [simp] Numberless.null Numberless.bool Numberless.str

@[simp] theorem numberless_arr : (arr items).Numberless ↔ ∀ x ∈ items, x.Numberless := by
  constructor
  · intro h
    cases h with
    | arr h => exact h
  · exact .arr

@[simp] theorem numberless_obj : (obj fields).Numberless ↔ ∀ e ∈ fields, e.2.Numberless := by
  constructor
  · intro h
    cases h with
    | obj h => exact h
  · exact .obj

theorem nestingItems_le : nestingItems items ≤ n ↔ ∀ x ∈ items, x.nesting ≤ n := by
  induction items
  case nil          => simp [nestingItems]
  case cons x xs ih => rw [nestingItems, Nat.max_le, ih, List.forall_mem_cons]

theorem nestingFields_le : nestingFields fields ≤ n ↔ ∀ e ∈ fields, e.2.nesting ≤ n := by
  induction fields
  case nil              => simp [nestingFields]
  case cons e fields ih => rw [nestingFields, Nat.max_le, ih, List.forall_mem_cons]

theorem nesting_leaf (h : t.isComposite = false) : t.nesting = 0 := by
  cases t <;> first | rfl | cases h

end Tree

namespace Literal

variable {c : Char} {s rest cs : List Char} {fuel whole room : Nat} {k : String} {t : Tree}
  {read : Reader Tree} {xs : List Tree} {fields : Fields}

theorem composes_nesting : Composes fun room t => t.nesting ≤ room where
  leaf h := by simp [Tree.nesting_leaf h]
  list h := by simpa [Tree.nesting] using Tree.nestingItems_le.mpr h
  map h  := by
    simpa [Tree.nesting] using Tree.nestingFields_le.mpr fun e he => h e (Fields.mem_of_mem_ofList he)

/-! ## Strings -/

-- A control character has four digits, and the first of them is no brace.
theorem escape_hexDigits (h : c.toNat < 32) :
    escape ('u' :: (Json.hexDigits 4 c.toNat ++ s)) = .ok (some c, s) := by
  have hx : ∀ n < 32, (Json.hexDigits 4 n).head? = some '0' ∧ (Json.hexDigits 4 n).length = 4 ∧
      charOfHex? (Json.hexDigits 4 n) = some (Char.ofNat n) := by decide
  obtain ⟨h0, hl, hc⟩ := hx _ h
  obtain ⟨r, hr⟩ := List.head?_eq_some_iff.mp h0
  rw [hr] at hl hc ⊢
  have hl : r.length = 3 := by simpa using hl
  have ht : (r ++ s).take 3 = r := by simp [← hl]
  have hd : (r ++ s).drop 3 = s := by simp [← hl]
  have hn : ¬(r.length + s.length + 1 < 4) := by omega
  simp [escape, fixedHex, charOfHex, Except.map, hc, ht, hd, hn]

-- A character stands for itself, or a backslash and what follows stand for it.
theorem escapeChar_eq (c : Char) :
    (c ≠ '"' ∧ c ≠ '\\' ∧ Json.escapeChar c = [c]) ∨
      ∃ e, Json.escapeChar c = '\\' :: e ∧ ∀ s, escape (e ++ s) = .ok (some c, s) := by
  have ofNat {d : Char} (h : c.toNat == d.toNat) : d = c := (Char.toNat_inj.mp (by simpa using h)).symm
  fun_cases Json.escapeChar c
  case case6 h => exact .inr ⟨_, rfl, fun s => by rw [← @ofNat '\x08' h]; rfl⟩
  case case7 h => exact .inr ⟨_, rfl, fun s => by rw [← @ofNat '\x0c' h]; rfl⟩
  case case8 h => exact .inr ⟨_, rfl, fun s => escape_hexDigits h⟩
  case case9   => simp_all
  all_goals
    refine .inr ⟨_, rfl, fun s => ?_⟩
    simp_all [escape]

theorem stringBody_escapeChar (h : stringBody '"' fuel s = .ok (cs, rest)) :
    stringBody '"' (fuel + 1) (Json.escapeChar c ++ s) = .ok (c :: cs, rest) := by
  obtain ⟨hq, hb, he⟩ | ⟨e, he, hs⟩ := escapeChar_eq c
  · simp [he, stringBody, hq, hb, h, bind, Except.bind, pure, Except.pure]
  · simp [he, stringBody, hs, h, bind, Except.bind, pure, Except.pure]

theorem stringBody_escapes (hf : cs.length < fuel) :
    stringBody '"' fuel (cs.flatMap Json.escapeChar ++ '"' :: rest) = .ok (cs, rest) := by
  induction cs generalizing fuel
  case nil =>
    obtain ⟨fuel, rfl⟩ := Nat.exists_eq_add_of_lt hf
    simp [stringBody]
  case cons c cs ih =>
    obtain _ | fuel := fuel
    · cases hf
    · rw [List.flatMap_cons, List.append_assoc]
      exact stringBody_escapeChar <| ih <| Nat.lt_of_succ_lt_succ hf

theorem length_le_length_flatMap_escapeChar : cs.length ≤ (cs.flatMap Json.escapeChar).length := by
  induction cs
  case nil          => simp
  case cons c cs ih =>
    have : 0 < (Json.escapeChar c).length := by
      obtain ⟨-, -, he⟩ | ⟨e, he, -⟩ := escapeChar_eq c <;> simp [he]
    simp only [List.length_cons, List.flatMap_cons, List.length_append]
    omega

-- A printed string, the opening quote of which has been read.
theorem string_escapes :
    string '"' (k.toList.flatMap Json.escapeChar ++ '"' :: rest) = .ok (k, rest) := by
  have hf : k.toList.length < (k.toList.flatMap Json.escapeChar ++ '"' :: rest).length + 1 := by
    have : k.toList.length ≤ _ := length_le_length_flatMap_escapeChar
    simp only [List.length_append]
    omega
  rw [string, stringBody_escapes hf]
  simp [Except.map]

/-! ## Values -/

-- What follows does not continue a name.
def Ends (rest : List Char) : Prop :=
  ∀ c ∈ rest.head?, Text.continuesName c = false

theorem skip_of_solid (hc : Text.isBlank c = false) (hs : c ≠ '/') : skip (c :: s) = c :: s := by
  rw [skip.eq_def]
  split <;> simp_all

theorem word_append (hw : s.all Text.continuesName) (hr : Ends rest) :
    word (s ++ rest) = (wordValue (.ofList s)).map (·, rest) := by
  have hw := List.all_eq_true.mp hw
  have he : rest.takeWhile Text.continuesName = [] ∧ rest.dropWhile Text.continuesName = rest := by
    cases rest <;> simp_all [Ends]
  rw [word, List.takeWhile_append_of_pos hw, List.dropWhile_append_of_pos hw, he.1, he.2, List.append_nil]

theorem value_quote : value whole room ('"' :: s) = (string '"' s).map fun r => (.str r.1, r.2) := by
  rw [value, skip_of_solid (by decide) (by decide)]
  rfl

theorem value_list :
    value whole (room + 1) ('[' :: s) =
      (items whole (value whole room) (s.length + 1) s).map fun r => (.arr r.1, r.2) := by
  rw [value, skip_of_solid (by decide) (by decide)]
  rfl

theorem value_map :
    value whole (room + 1) ('{' :: s) =
      (entries whole (value whole room) (s.length + 1) s).map fun r =>
        (.obj (Fields.ofList r.1), r.2) := by
  rw [value, skip_of_solid (by decide) (by decide)]
  rfl

theorem value_word (hc : c ∈ ['n', 't', 'f']) : value whole room (c :: s) = word (c :: s) := by
  simp only [List.mem_cons, List.not_mem_nil, or_false] at hc
  obtain rfl | rfl | rfl := hc
  all_goals
    rw [value, skip_of_solid (by decide) (by decide)]
    rfl

theorem value_tooDeep (hc : c ∈ ['[', '{']) : value whole 0 (c :: s) = .error .tooDeep := by
  simp only [List.mem_cons, List.not_mem_nil, or_false] at hc
  obtain rfl | rfl := hc
  all_goals
    rw [value, skip_of_solid (by decide) (by decide)]
    rfl

theorem key_quote : key whole ('"' :: s) = string '"' s := rfl

/-! ## Containers -/

-- What is read of something that nests that deep.
def fitting {α : Type} (room nesting : Nat) (a : α) : Except LiteralError α :=
  if nesting ≤ room then .ok a else .error .tooDeep

section

variable {α β : Type} {m n : Nat} {a : α} {b : β} {f : α → Except LiteralError β} {g : α → β}

@[simp] theorem fitting_zero : fitting room 0 a = .ok a := rfl

@[simp] theorem fitting_succ : fitting (room + 1) (n + 1) a = fitting room n a := by
  simp [fitting]

@[simp] theorem map_fitting : (fitting room n a).map g = fitting room n (g a) := by
  unfold fitting
  split <;> rfl

theorem fitting_bind (h : f a = fitting room n b) :
    (fitting room m a >>= f) = fitting room (max m n) b := by
  by_cases hm : m ≤ room
  case pos =>
    rw [fitting, if_pos hm]
    refine h.trans ?_
    simp only [fitting, Nat.max_le, hm, true_and]
  case neg =>
    rw [fitting, fitting, if_neg hm, if_neg fun h => hm (Nat.le_trans (Nat.le_max_left ..) h)]
    rfl

theorem fitting_bind_pure : (fitting room n a >>= fun a => pure (g a)) = fitting room n (g a) :=
  map_fitting

end

-- The reader takes a printed tree for the tree, as far as there is room for it.
def ReadsBack (read : Reader Tree) (room : Nat) (t : Tree) : Prop :=
  ∀ rest, Ends rest → read (Json.write t ++ rest) = fitting room t.nesting (t, rest)

-- Every printed tree starts with a character that starts no comment and closes no container.
theorem head_write (h : t.Numberless) :
    ∃ c s, Json.write t = c :: s ∧ Text.isBlank c = false ∧ c ≠ '/' ∧ c ≠ ']' := by
  cases h with
  | @bool b => cases b <;> exact ⟨_, _, rfl, by decide⟩
  | _ => exact ⟨_, _, rfl, by decide⟩

theorem items_write (h : t.Numberless) :
    items whole read (fuel + 1) (Json.write t ++ s) = (do
      let (x, s) ← read (Json.write t ++ s)
      match skip s with
      | ',' :: s =>
        let (xs, s) ← items whole read fuel s
        return (x :: xs, s)
      | ']' :: s => return ([x], s)
      | s => throw (reject whole s)) := by
  obtain ⟨c, u, hw, hb, hs, hc⟩ := head_write h
  rw [hw, List.cons_append, items, skip_of_solid hb hs]
  split
  case h_1 h => exact absurd (List.cons.inj h).1 hc
  case h_2   => rfl

theorem items_writeItems (h : ∀ x ∈ xs, x.Numberless ∧ ReadsBack read room x) (hf : xs.length < fuel) :
    items whole read fuel (Json.writeItems xs ++ ']' :: rest) =
      fitting room (Tree.nestingItems xs) (xs, rest) := by
  have close : skip (']' :: rest) = ']' :: rest := skip_of_solid (by decide) (by decide)
  induction xs generalizing fuel
  case nil =>
    obtain ⟨fuel, rfl⟩ := Nat.exists_eq_add_of_lt hf
    simp [items, Json.writeItems, Tree.nestingItems, close]
  case cons x xs ih =>
    obtain _ | fuel := fuel
    · cases hf
    obtain ⟨⟨hn, hb⟩, h⟩ := List.forall_mem_cons.mp h
    have ends : Ends (Json.moreItems xs ++ ']' :: rest) := by
      cases xs <;> simp [Ends, Json.moreItems] <;> decide
    rw [Json.writeItems, List.append_assoc, items_write hn, hb _ ends]
    refine fitting_bind ?_
    -- The list ends here, or a comma follows and the rest of it is read with the fuel that is left.
    obtain _ | ⟨y, ys⟩ := xs
    · simp only [Json.moreItems, List.nil_append, close]
      rfl
    · have hm : skip (Json.moreItems (y :: ys) ++ ']' :: rest) =
          ',' :: (Json.writeItems (y :: ys) ++ ']' :: rest) :=
        skip_of_solid (by decide) (by decide)
      simp only [hm, ih h (Nat.lt_of_succ_lt_succ hf)]
      exact fitting_bind_pure

-- Behind its key an entry of a map is read as an item of a list is.
theorem entries_writeString :
    entries whole read (fuel + 1) (Json.writeString k ++ ':' :: s) = (do
      let (v, s) ← read s
      match skip s with
      | ',' :: s =>
        let (rest, s) ← entries whole read fuel s
        return ((k, v) :: rest, s)
      | '}' :: s => return ([(k, v)], s)
      | s => throw (reject whole s)) := by
  have hk : Json.writeString k ++ ':' :: s =
      '"' :: (k.toList.flatMap Json.escapeChar ++ '"' :: ':' :: s) := by simp [Json.writeString]
  rw [hk, entries, skip_of_solid (by decide) (by decide)]
  split
  case h_1 h => exact absurd (List.cons.inj h).1 (by decide)
  case h_2   =>
    rw [key_quote, string_escapes]
    rfl

theorem entries_writeFields (h : ∀ e ∈ fields, ReadsBack read room e.2) (hf : fields.length < fuel) :
    entries whole read fuel (Json.writeFields fields ++ '}' :: rest) =
      fitting room (Tree.nestingFields fields) (fields, rest) := by
  have close : skip ('}' :: rest) = '}' :: rest := skip_of_solid (by decide) (by decide)
  induction fields generalizing fuel
  case nil =>
    obtain ⟨fuel, rfl⟩ := Nat.exists_eq_add_of_lt hf
    simp [entries, Json.writeFields, Tree.nestingFields, close]
  case cons e fields ih =>
    obtain _ | fuel := fuel
    · cases hf
    obtain ⟨hb, h⟩ := List.forall_mem_cons.mp h
    have ends : Ends (Json.moreFields fields ++ '}' :: rest) := by
      cases fields <;> simp [Ends, Json.moreFields] <;> decide
    rw [Json.writeFields, List.append_assoc, List.cons_append, entries_writeString, List.append_assoc,
      hb _ ends]
    refine fitting_bind ?_
    obtain _ | ⟨d, ds⟩ := fields
    · simp only [Json.moreFields, List.nil_append, close]
      rfl
    · have hm : skip (Json.moreFields (d :: ds) ++ '}' :: rest) =
          ',' :: (Json.writeFields (d :: ds) ++ '}' :: rest) :=
        skip_of_solid (by decide) (by decide)
      simp only [hm, ih h (Nat.lt_of_succ_lt_succ hf)]
      exact fitting_bind_pure

/-! ## Trees -/

-- There is fuel for every item and for the end of the list.
theorem length_writeItems : xs.length ≤ (Json.writeItems xs).length + 1 := by
  have hm : ∀ xs, xs.length ≤ (Json.moreItems xs).length := by
    intro xs
    induction xs
    case nil          => simp
    case cons x xs ih => simp only [Json.moreItems, List.length_cons, List.length_append]; omega
  cases xs
  case nil       => simp
  case cons x xs =>
    have := hm xs
    simp only [Json.writeItems, List.length_cons, List.length_append]
    omega

theorem length_writeFields : fields.length ≤ (Json.writeFields fields).length + 1 := by
  have hm : ∀ fields, fields.length ≤ (Json.moreFields fields).length := by
    intro fields
    induction fields
    case nil              => simp
    case cons e fields ih => simp only [Json.moreFields, List.length_cons, List.length_append]; omega
  cases fields
  case nil           => simp
  case cons e fields =>
    have := hm fields
    simp only [Json.writeFields, List.length_cons, List.length_append]
    omega

theorem readsBack_leaf (hl : t.isComposite = false) (hn : t.Numberless) :
    ReadsBack (value whole room) room t := by
  intro rest hr
  rw [Tree.nesting_leaf hl, fitting_zero]
  cases hn with
  | arr | obj => cases hl
  | null =>
    rw [Json.write, List.cons_append, value_word (by decide)]
    exact word_append (s := ['n', 'u', 'l', 'l']) (by decide) hr
  | @bool b =>
    cases b
    case false =>
      rw [Json.write, List.cons_append, value_word (by decide)]
      exact word_append (s := ['f', 'a', 'l', 's', 'e']) (by decide) hr
    case true =>
      rw [Json.write, List.cons_append, value_word (by decide)]
      exact word_append (s := ['t', 'r', 'u', 'e']) (by decide) hr
  | str =>
    rw [Json.write, Json.writeString, List.cons_append, List.append_assoc, List.singleton_append,
      value_quote, string_escapes]
    rfl

theorem readsBack_list (h : ∀ x ∈ xs, x.Numberless ∧ ∀ room, ReadsBack (value whole room) room x) :
    ReadsBack (value whole room) room (.arr xs) := by
  intro rest _
  have hw : Json.write (.arr xs) ++ rest = '[' :: (Json.writeItems xs ++ ']' :: rest) := by
    simp [Json.write]
  cases room
  case zero =>
    rw [hw, value_tooDeep (by decide)]
    rfl
  case succ room =>
    have hf : xs.length < (Json.writeItems xs ++ ']' :: rest).length + 1 := by
      have : xs.length ≤ _ := length_writeItems
      simp only [List.length_append, List.length_cons]
      omega
    rw [hw, value_list, items_writeItems (fun x hx => ⟨(h x hx).1, (h x hx).2 room⟩) hf, map_fitting,
      Tree.nesting, fitting_succ]

theorem readsBack_map (hk : fields.keys.Nodup)
    (h : ∀ e ∈ fields, ∀ room, ReadsBack (value whole room) room e.2) :
    ReadsBack (value whole room) room (.obj fields) := by
  intro rest _
  have hw : Json.write (.obj fields) ++ rest = '{' :: (Json.writeFields fields ++ '}' :: rest) := by
    simp [Json.write]
  cases room
  case zero =>
    rw [hw, value_tooDeep (by decide)]
    rfl
  case succ room =>
    have hf : fields.length < (Json.writeFields fields ++ '}' :: rest).length + 1 := by
      have : fields.length ≤ _ := length_writeFields
      simp only [List.length_append, List.length_cons]
      omega
    rw [hw, value_map, entries_writeFields (fun e he => h e he room) hf, map_fitting, Tree.nesting,
      fitting_succ]
    simp only [Fields.ofList_eq_self hk]

-- By induction on the tree, in any room: a container leaves one less to what is in it.
theorem readsBack_value (hk : t.KeysOnce) (hn : t.Numberless) : ReadsBack (value whole room) room t := by
  induction t using Tree.inductionOn generalizing room
  case leaf t hl => exact readsBack_leaf hl hn
  case arr xs ih =>
    have hn := Tree.numberless_arr.mp hn
    exact readsBack_list fun x hx => ⟨hn x hx, fun _ => ih x hx (hk.item x hx) (hn x hx)⟩
  case obj fields ih =>
    have hn := Tree.numberless_obj.mp hn
    exact readsBack_map hk.nodup_keys fun e he _ => ih e he (hk.entry e he) (hn e he)

-- Nothing that is printed is misread, and no literal goes deeper than 128 containers.
theorem parse_toJson :
    (∀ v : Tree, v.KeysOnce → v.Numberless →
      parse v.toJson = if v.nesting ≤ 128 then .ok v else .error .tooDeep) ∧
    ∀ text v, parse text = .ok v → v.nesting ≤ 128 := by
  refine ⟨fun v hk hn => ?_, fun text => composes_nesting.parse⟩
  have hv : value (Json.write v).length maxNesting (Json.write v ++ []) =
      fitting maxNesting v.nesting (v, []) := readsBack_value hk hn [] (by simp [Ends])
  rw [List.append_nil] at hv
  have hp : parse v.toJson = fitting maxNesting (max v.nesting 0) v := by
    simp only [parse, Tree.toJson, String.toList_ofList, hv]
    exact fitting_bind rfl
  rw [hp, Nat.max_zero]
  rfl

def notice : Tree :=
  .obj [("say \"hi\"", .str "a // b /* c */ \\"), ("", .arr []),
    ("\n\u0007é", .arr [.null, .bool true, .obj []])]

def tower : Nat → Tree
  | 0 => .null
  | n + 1 => .arr [tower n]

theorem keysOnce_tower (n : Nat) : (tower n).KeysOnce := by
  induction n
  case zero      => exact .leaf rfl
  case succ n ih => exact .arr (by simpa using ih)

theorem numberless_tower (n : Nat) : (tower n).Numberless := by
  induction n <;> simp_all [tower]

theorem nesting_tower (n : Nat) : (tower n).nesting = n := by
  induction n <;> simp_all [tower, Tree.nesting, Tree.nestingItems]

-- Quotes, backslashes and what looks like a comment come back, and the storey too many does not.
theorem notice_read :
    notice.KeysOnce ∧ notice.Numberless ∧ notice.nesting ≤ 128 ∧ parse notice.toJson = .ok notice ∧
      parse (tower 128).toJson = .ok (tower 128) ∧ (tower 128).nesting ≤ 128 ∧
      parse (tower 129).toJson = .error .tooDeep := by
  have hk : notice.KeysOnce := by decide
  have hn : notice.Numberless := by simp [notice]
  have ht (n : Nat) := parse_toJson.1 (tower n) (keysOnce_tower n) (numberless_tower n)
  have hp : parse (tower 128).toJson = .ok (tower 128) := by
    rw [ht, nesting_tower, if_pos (Nat.le_refl _)]
  refine ⟨hk, hn, by decide, parse_toJson.1 notice hk hn, hp, parse_toJson.2 _ _ hp, ?_⟩
  rw [ht, nesting_tower, if_neg (by decide)]

end Literal

end Storyworld
