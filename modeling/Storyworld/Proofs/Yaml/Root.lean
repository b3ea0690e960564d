import Storyworld.Proofs.Command.Value
import Storyworld.Proofs.Yaml.Quoted

/-!
Texts that start with a scalar in quotes. Whatever follows, such a text is no other scalar than that one:
its tokens begin with it, in front of which only keys can be put, and keys make the text a map.
-/

namespace Storyworld.Yaml

variable {quote x : Char} {s text : List Char} {fuel n : Nat}

/-! ## The first token -/

namespace Lexer

variable {l m : Lexer} {first k : Token} {column : Int}

-- The tokens begin with this one, in front of which only keys can be put.
structure Begins (first : Token) (l : Lexer) : Prop where
  first    : l.tokens.getLast? = some first
  inserted : ∀ p ∈ l.inserted, p.2 = .key ∨ p.2 = .blockMap

namespace Begins

theorem keep (h : Begins first l) (ht : m.tokens = l.tokens) (hi : m.inserted = l.inserted) :
    Begins first m where
  first    := ht ▸ h.first
  inserted := hi ▸ h.inserted

theorem put (h : Begins first l) (ht : m.tokens = k :: l.tokens) (hi : m.inserted = l.inserted) :
    Begins first m where
  first    := by rw [ht, List.getLast?_cons, h.first, Option.getD_some]
  inserted := hi ▸ h.inserted

theorem insert (h : Begins first l) (hk : k = .key ∨ k = .blockMap) : Begins first (l.insert n k) where
  first    := h.first
  inserted := List.forall_mem_cons.mpr ⟨hk, h.inserted⟩

theorem openBlock {open_ : Lexer → Lexer} (h : Begins first l)
    (ho : ∀ l, Begins first l → Begins first (open_ l)) : Begins first (l.openBlock n open_) := by
  unfold Lexer.openBlock
  split
  · exact (ho l h).keep rfl rfl
  · exact h

theorem openBlock_emit (h : Begins first l) : Begins first (l.openBlock n (Lexer.emit k)) :=
  h.openBlock fun _ hl => hl.put rfl rfl

theorem closeBlocks (h : Begins first l) : Begins first (l.closeBlocks column) := by
  have go (outer : List Int) : ∀ indent l, Begins first l →
      Begins first (Lexer.closeBlocks.go column indent outer l) := by
    induction outer
    case nil => exact fun _ _ h => h.keep rfl rfl
    case cons i outer ih =>
      intro indent l h
      unfold Lexer.closeBlocks.go
      split
      · exact ih i _ (h.put rfl rfl)
      · exact h.keep rfl rfl
  unfold Lexer.closeBlocks
  split
  · exact h
  · exact go _ _ _ h

theorem dropCandidate? (h : Begins first l) : Gives (Begins first) l.dropCandidate? := by
  unfold Lexer.dropCandidate?
  split
  · exact gives_none
  · exact gives_some (h.keep rfl rfl)

theorem noteCandidate? (h : Begins first l) : Gives (Begins first) l.noteCandidate? := by
  unfold Lexer.noteCandidate?
  split
  · exact h.dropCandidate?.bind fun _ hl => gives_some (hl.keep rfl rfl)
  · exact gives_some h

theorem dropStale? (h : Begins first l) : Gives (Begins first) l.dropStale? :=
  gives_bind fun _ => gives_some (h.keep rfl rfl)

-- What is read next comes behind the first token.
theorem documentLevel? {t : Token × Cursor} (h : Begins first l) : Gives (Begins first) (l.documentLevel? t) :=
  h.closeBlocks.dropCandidate?.bind fun _ hl => gives_some (hl.put rfl rfl)

theorem openFlow? (h : Begins first l) : Gives (Begins first) (l.openFlow? k) :=
  h.noteCandidate?.bind fun _ hl => gives_some (hl.put rfl rfl)

theorem closeFlow? (h : Begins first l) : Gives (Begins first) (l.closeFlow? k) :=
  h.dropCandidate?.bind fun _ hl => gives_some (hl.put rfl rfl)

theorem comma? (h : Begins first l) : Gives (Begins first) l.comma? :=
  h.dropCandidate?.bind fun _ hl => gives_some (hl.put rfl rfl)

theorem dash? (h : Begins first l) : Gives (Begins first) l.dash? := by
  unfold Lexer.dash?
  split
  · exact gives_none
  · exact h.openBlock_emit.dropCandidate?.bind fun _ hl => gives_some (hl.put rfl rfl)

theorem key? (h : Begins first l) : Gives (Begins first) l.key? := by
  unfold Lexer.key?
  split
  · exact gives_none
  · exact h.openBlock_emit.dropCandidate?.bind fun _ hl => gives_some (hl.put rfl rfl)

theorem value? (h : Begins first l) : Gives (Begins first) l.value? := by
  unfold Lexer.value?
  dsimp only
  split
  case h_1 k _ =>
    have hb := (h.insert (n := k.number) (.inl rfl)).openBlock (n := k.mark.column)
      fun l hl => hl.insert (n := k.number) (.inr rfl)
    exact gives_some (hb.put rfl rfl)
  case h_2 =>
    split
    · exact gives_none
    · exact gives_some (h.openBlock_emit.put rfl rfl)

theorem leaf? {read : Cursor → Option (Token × Cursor)} (h : Begins first l) :
    Gives (Begins first) (l.leaf? read) :=
  h.noteCandidate?.bind fun _ hl => gives_bind fun _ => gives_some (hl.put rfl rfl)

theorem plain? (h : Begins first l) : Gives (Begins first) l.plain? :=
  h.noteCandidate?.bind fun _ hl => gives_bind fun _ => gives_some (hl.put rfl rfl)

theorem block? {literal : Bool} (h : Begins first l) : Gives (Begins first) (l.block? literal) :=
  h.dropCandidate?.bind fun _ hl => gives_bind fun _ => gives_some (hl.put rfl rfl)

theorem token? (h : Begins first l) : Gives (Begins first) (l.token? x s) := by
  unfold Lexer.token?
  refine gives_ite (gives_bind fun _ => h.closeBlocks.documentLevel?) ?_
  refine gives_ite h.documentLevel? <| gives_ite h.documentLevel? ?_
  refine gives_ite h.openFlow? <| gives_ite h.openFlow? ?_
  refine gives_ite h.closeFlow? <| gives_ite h.closeFlow? ?_
  refine gives_ite h.comma? <| gives_ite h.dash? <| gives_ite h.key? <| gives_ite h.value? ?_
  refine gives_ite h.leaf? <| gives_ite h.leaf? <| gives_ite h.leaf? ?_
  refine gives_ite h.block? <| gives_ite h.block? ?_
  exact gives_ite h.leaf? <| gives_ite h.plain? gives_none

theorem finish? (h : Begins first l) : Gives (Begins first) l.finish? :=
  h.closeBlocks.dropCandidate?.bind fun _ hl => gives_some (hl.put rfl rfl)

theorem run? (h : Begins first l) : Gives (Begins first) (Lexer.run? fuel l) := by
  induction fuel generalizing l
  case zero => exact gives_none
  case succ fuel ih =>
    have hn : Begins first l.toNextToken := h.keep rfl rfl
    refine hn.dropStale?.bind fun l hl => ?_
    dsimp only
    split
    · exact hl.closeBlocks.finish?
    · exact hl.closeBlocks.token?.bind fun l hl => ih hl

theorem woven (h : Begins first l) :
    ∃ keys more, l.woven = keys ++ first :: more ∧ ∀ k ∈ keys, k = .key ∨ k = .blockMap := by
  obtain ⟨r, hr⟩ := List.head?_eq_some_iff.mp (List.head?_reverse.trans h.first)
  unfold Lexer.woven
  rw [hr, List.zipIdx_cons, List.map_cons, List.flatten_cons, List.append_assoc]
  refine ⟨_, _, rfl, fun k hk => ?_⟩
  obtain ⟨p, hp, rfl⟩ := List.mem_map.mp hk
  exact h.inserted p (List.mem_filter.mp hp).1

end Begins

end Lexer

/-! ## The root -/

variable {keys more : List Token} {d : Document} {T : String} {handles : Handles}

theorem node?_of_keys (hk : ∀ k ∈ keys, k = .key ∨ k = .blockMap) :
    Gives (fun r => r.1 = .scalar none T false ∨ ∃ entries, r.1 = .map none entries)
      (node? handles ⟨true, false⟩ fuel { tokens := keys ++ .scalar T false :: more }) := by
  cases fuel
  case zero => exact gives_none
  case succ fuel =>
  cases keys
  case nil =>
    exact gives_some (.inl rfl)
  case cons k keys =>
    obtain rfl | rfl := hk k List.mem_cons_self
    · exact gives_none
    · refine gives_bind (x := blockEntries? _ _ _) fun r => gives_some (.inr ⟨r.1, rfl⟩)

-- In front of them are neither directives nor the mark of a document.
theorem document?_of_keys (hk : ∀ k ∈ keys, k = .key ∨ k = .blockMap) :
    Gives (fun d => d.root = .scalar none T false ∨ ∃ entries, d.root = .map none entries)
      (document? (keys ++ .scalar T false :: more)) := by
  have hd : readDirectives? false [] (keys ++ .scalar T false :: more) =
      some (false, [], keys ++ .scalar T false :: more) := by
    cases keys
    case nil         => rfl
    case cons k keys => obtain rfl | rfl := hk k List.mem_cons_self <;> rfl
  have hs {k : Token} {ts : List Token} (h : keys ++ .scalar T false :: more = k :: ts) :
      k = .scalar T false ∨ k = .key ∨ k = .blockMap := by
    cases keys
    case nil         => exact .inl (List.cons.inj h).1.symm
    case cons c keys => exact .inr ((List.cons.inj h).1 ▸ hk c List.mem_cons_self)
  unfold document?
  rw [if_neg fun h => by simpa using hs h, hd]
  simp only [Option.bind_eq_bind, Option.bind_some]
  split
  case h_1 h => simpa using hs h
  case h_2   =>
    refine Gives.bind (node?_of_keys hk) fun r hr => ?_
    split
    · exact gives_some hr
    · exact gives_none

theorem tree_scalar {a : Anchors} : (tree a maxNesting (.scalar none T false)).run' n = some (.str T) := by
  rw [maxNesting, tree]
  rfl

theorem counts_map {a : Anchors} {entries : List (Node × Node)} :
    Counts (∃ fields, · = Tree.obj fields) (tree a maxNesting (.map none entries)) := by
  rw [maxNesting, tree]
  refine Counts.bind (P := (· = .map none entries)) (counts_pure rfl) ?_
  rintro _ rfl
  exact counts_bind fun fields => counts_pure ⟨_, rfl⟩

/-! ## Texts -/

namespace Lexer

def start (s : List Char) : Lexer where
  cursor := { rest := s }

-- Behind a scalar in quotes at the start of the text.
def quoted (text : List Char) (c : Cursor) : Lexer where
  cursor     := c
  tokens     := [.scalar (.ofList text) false]
  candidates := [some ⟨false, 0, {}⟩]
  keyAllowed := false

theorem run?_start (hq : quote = '\'' ∨ quote = '"') :
    run? (fuel + 1) (start (quote :: s)) =
      (quotedScalar quote ⟨{}, quote :: s⟩).bind fun r => run? fuel (quoted r.1 r.2) := by
  have hn : (start (quote :: s)).toNextToken.dropStale? = some (start (quote :: s)) := by
    obtain rfl | rfl := hq <;> rfl
  have ht : (start (quote :: s)).token? quote s = (start (quote :: s)).leaf? (readQuoted quote) := by
    obtain rfl | rfl := hq <;> rfl
  have hl : (start (quote :: s)).leaf? (readQuoted quote) =
      (quotedScalar quote ⟨{}, quote :: s⟩).bind fun r => some (quoted r.1 r.2) := by
    change ((quotedScalar quote ⟨{}, quote :: s⟩).bind _).bind _ = _
    rw [Option.bind_assoc]
    rfl
  rw [run?, hn]
  change ((start (quote :: s)).token? quote s).bind (run? fuel) = _
  rw [ht, hl, Option.bind_assoc]
  rfl

theorem run?_backtick : run? (fuel + 1) (start ('\x60' :: s)) = none := by
  have hi : isIndicator '\x60' = true := by
    rw [isIndicator, String.contains_char_eq]
    decide
  have hn : (start ('\x60' :: s)).toNextToken.dropStale? = some (start ('\x60' :: s)) := rfl
  have ht : (start ('\x60' :: s)).token? '\x60' s =
      if startsPlain false '\x60' s then (start ('\x60' :: s)).plain? else none := rfl
  have hp : startsPlain false '\x60' s = false := by simp [startsPlain, hi]
  rw [run?, hn]
  change ((start ('\x60' :: s)).token? '\x60' s).bind (run? fuel) = _
  rw [ht, hp]
  rfl

theorem run?_quoted {c : Cursor} {text : List Char} (hr : c.rest = []) :
    ∃ l, run? (fuel + 1) (quoted text c) = some l ∧ l.woven = [.scalar (.ofList text) false, .textEnd] := by
  obtain ⟨m, _⟩ := c
  subst hr
  have hn : (quoted text ⟨m, []⟩).toNextToken = quoted text ⟨m, []⟩ := rfl
  -- The scalar may be too far away to be a key, which makes no difference.
  by_cases hs : isStale m ⟨false, 0, {}⟩
  case pos =>
    have hd : (quoted text ⟨m, []⟩).dropStale? = some { quoted text ⟨m, []⟩ with candidates := [none] } := by
      simp [dropStale?, quoted, hs]
    exact ⟨_, by rw [run?, hn, hd]; rfl, rfl⟩
  case neg =>
    have hd : (quoted text ⟨m, []⟩).dropStale? = some (quoted text ⟨m, []⟩) := by
      simp [dropStale?, quoted, hs]
    exact ⟨_, by rw [run?, hn, hd]; rfl, rfl⟩

theorem begins_quoted {c : Cursor} {text : List Char} :
    Begins (.scalar (.ofList text) false) (quoted text c) where
  first    := rfl
  inserted := by simp [quoted]

end Lexer

theorem tokens?_quoted (hq : quote = '\'' ∨ quote = '"') (hs : ∀ x ∈ s, endsLine x = false) :
    tokens? (quote :: s) = if (quote :: s).all isPrintable then
      ((quotedScalar quote ⟨{}, quote :: s⟩).bind fun r => Lexer.run? (s.length + 1) (Lexer.quoted r.1 r.2)).map
        Lexer.woven
    else none := by
  have hl : ∀ x ∈ quote :: s, endsLine x = false := by
    refine List.forall_mem_cons.mpr ⟨?_, hs⟩
    obtain rfl | rfl := hq <;> rfl
  have hb : (quote :: s).head? ≠ some '\uFEFF' := by obtain rfl | rfl := hq <;> simp
  rw [tokens?, if_neg hb, uniformBreaks_line hl, ← Lexer.run?_start hq]
  rfl

-- A text that starts with a scalar is no other scalar than that one.
theorem exists_of_parse?_quoted (hq : quote = '\'' ∨ quote = '"') (hs : ∀ x ∈ s, endsLine x = false)
    (h : parse? (quote :: s) = some (.str T)) :
    (quote :: s).all isPrintable ∧ ∃ rest, Quoted quote s T.toList rest := by
  obtain ⟨tokens, ht, h'⟩ := Option.bind_eq_some_iff.mp h
  obtain ⟨d, hd, htree⟩ := Option.bind_eq_some_iff.mp h'
  rw [tokens?_quoted hq hs] at ht
  split at ht
  case isFalse => cases ht
  case isTrue hp =>
  refine ⟨hp, ?_⟩
  obtain ⟨l, hl, rfl⟩ := Option.map_eq_some_iff.mp ht
  obtain ⟨⟨text, c⟩, hc, hrun⟩ := Option.bind_eq_some_iff.mp hl
  obtain ⟨keys, more, hw, hk⟩ := (Lexer.begins_quoted.run? l hrun).woven
  rw [hw] at hd
  obtain hr | ⟨entries, hr⟩ := document?_of_keys hk d hd
  case inl =>
    rw [hr, tree_scalar] at htree
    cases htree
    rw [String.toList_ofList]
    exact ⟨c.rest, (quotedScalar_iff hq fun x hx => (Bool.or_eq_false_iff.mp (hs x hx)).2).mp ⟨c, hc, rfl⟩⟩
  case inr =>
    rw [hr] at htree
    obtain ⟨r, hm, he⟩ := Option.map_eq_some_iff.mp htree
    obtain ⟨fields, hf⟩ := counts_map 0 r hm
    cases he.symm.trans hf

theorem parse?_of_quoted (hq : quote = '\'' ∨ quote = '"') (hs : ∀ x ∈ s, endsLine x = false)
    (hp : (quote :: s).all isPrintable) (h : Quoted quote s text []) :
    parse? (quote :: s) = some (.str (.ofList text)) := by
  obtain ⟨c, hc, hr⟩ := (quotedScalar_iff hq fun x hx => (Bool.or_eq_false_iff.mp (hs x hx)).2).mpr h
  obtain ⟨l, hl, hw⟩ : ∃ l, Lexer.run? (s.length + 1) (Lexer.quoted text c) = some l ∧
      l.woven = [.scalar (.ofList text) false, .textEnd] := Lexer.run?_quoted hr
  rw [parse?, tokens?_quoted hq hs, if_pos hp, hc, Option.bind_some, hl, Option.map_some, hw]
  change (tree _ maxNesting (.scalar none (.ofList text) false)).run' 0 = _
  exact tree_scalar

theorem parse?_of_not_printable (h : s.all isPrintable = false) : parse? s = none := by
  rw [parse?, tokens?, h]
  rfl

-- No token starts with a backtick.
theorem parse?_backtick : parse? ('\x60' :: s) = none := by
  have hu : uniformBreaks ('\x60' :: s) = '\x60' :: uniformBreaks s := rfl
  have ht : tokens? ('\x60' :: s) = none := by
    rw [tokens?, if_neg (show ('\x60' :: s).head? ≠ some '\uFEFF' by simp), hu]
    split
    · exact congrArg (Option.map Lexer.woven) Lexer.run?_backtick
    · rfl
  rw [parse?, ht]
  rfl

end Storyworld.Yaml
