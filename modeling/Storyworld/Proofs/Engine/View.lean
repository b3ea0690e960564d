import Storyworld.Engine.Script
import Storyworld.Proofs.Engine.Account
import Storyworld.Proofs.Meta.Tidy
import Storyworld.Proofs.Operation.Account
import Storyworld.Proofs.Tree.Telling

/-!
What the two views show after a batch without listeners: what they keep, what they lose, and that the
view of the changes shows nothing else.
-/

namespace Storyworld

/-! ## Accounts in a row -/

namespace Tree

variable {t v : Tree} {p q : Path} {account : String} {accounts : List (Path × String)}
  {reported : Path → String → Prop}

theorem sameWay_record (hq : t.get? q = some v)
    (h : ∀ r ∈ accounts, ¬t.Crosses r.1 q ∧ ¬t.Overturns r.1 q) : SameWay t (t.record accounts) q := by
  refine record_induction (P := (SameWay t · q)) (SameWay.refl hq) fun r hr u hu => hu.trans ?_
  obtain ⟨hc, ho⟩ := h r hr
  exact sameWay_set (hu.get?.trans hq) (mt hu.crosses_iff.mp hc) (mt hu.overturns_iff.mp ho)

theorem Gone.record (h : t.Gone q) (ha : ∀ r ∈ accounts, r.1.Apart q) : (t.record accounts).Gone q :=
  record_induction (P := (Gone · q)) h fun r hr _ hu => hu.set (ha r hr)

-- Once overturned, a value does not come back.
theorem gone_record (hq : t.get? q = some v) (ha : ∀ r ∈ accounts, r.1.Apart q)
    (h : ∃ r ∈ accounts, t.Overturns r.1 q) : (t.record accounts).Gone q := by
  induction accounts generalizing t
  case nil => simp at h
  case cons r accounts ih =>
    have ⟨hr, ha⟩ := List.forall_mem_cons.mp ha
    by_cases ho : t.Overturns r.1 q
    case pos => exact (ho.gone hr).record ha
    case neg =>
      have hs := sameWay_set (x := .str r.2) hq (not_crosses_of_apart hr) ho
      have ⟨r', hm, ho'⟩ := h
      obtain rfl | hm := List.mem_cons.mp hm
      · exact absurd ho' ho
      · exact ih (hs.get?.trans hq) ha ⟨r', hm, hs.overturns_iff.mpr ho'⟩

-- A value at a path apart from all accounts stays, unless one of them overturns a container above it.
theorem get?_record_iff (hq : t.get? q = some v) (hv : v ≠ null) (ha : ∀ r ∈ accounts, r.1.Apart q) :
    (t.record accounts).get? q = some v ↔ ∀ r ∈ accounts, ¬t.Overturns r.1 q := by
  constructor
  case mp =>
    intro h r hr ho
    obtain hg | hg := gone_record hq ha ⟨r, hr, ho⟩
    · cases hg.symm.trans h
    · exact hv (Option.some.inj (hg.symm.trans h)).symm
  case mpr =>
    intro h
    rw [← hq]
    exact (sameWay_record hq fun r hr => ⟨not_crosses_of_apart (ha r hr), h r hr⟩).get?

theorem tells_record (ht : t = emptyMap ∨ Tells reported t) (h : ∀ r ∈ accounts, reported r.1 r.2) :
    t.record accounts = emptyMap ∨ Tells reported (t.record accounts) :=
  record_induction (P := fun u => u = emptyMap ∨ Tells reported u) ht fun r hr _ hu =>
    .inr <| .set (.inr hu) (fun _ _ => id) (h r hr)

end Tree

theorem Meta.Tidy.record {t : Tree} {accounts : List (Path × String)} (h : Tidy t)
    (ha : ∀ r ∈ accounts, r.2 ≠ marker) : Tidy (t.record accounts) :=
  Tree.record_induction (P := Tidy) h fun r hr _ hu => hu.set (ha r hr)

theorem Command.isPhrase_accounts {flags : Flags} {cs : List Command} {s : State} {dice : Dice} :
    ∀ r ∈ accounts flags cs s dice, IsPhrase r.2 := by
  induction cs generalizing s dice
  case nil => simp [accounts]
  case cons c cs ih =>
    rw [accounts]
    have h : Yields Applied.TellsPhrases (c.run flags s dice).1 := c.yields_run
    generalize c.run flags s dice = run at h ⊢
    obtain ⟨_ | applied, s, dice⟩ := run
    · exact ih
    · exact List.forall_mem_append.mpr ⟨h applied rfl, ih⟩

namespace Engine

variable {σ : Type} {e : Engine σ} {text : String} {s s' : State} {dice dice' : Dice} {host host' : σ}
  {r : Report} {path q : Path} {v : Tree} {account : String} {before after : List (Path × String)}

/-! ## The display view -/

theorem display_get? (hl : e.listeners = [])
    (hb : (e.batch text s dice).run host = ((r, s', dice'), host')) (hs : Meta.Bare s.stat)
    (hq : ∀ a ∈ q, a.name ≠ Meta.key) :
    s'.display.get? q = ((s.stat.record (e.accounts text s dice)).get? q).map Meta.clean := by
  rw [(batch_views hl hb).1]
  refine Meta.get?_clean (hs.tidy.record fun a ha => ?_) hq
  exact (Command.isPhrase_accounts a ha).ne_marker

theorem display_keeps (hl : e.listeners = [])
    (hb : (e.batch text s dice).run host = ((r, s', dice'), host')) (hs : Meta.Bare s.stat)
    (hq : s.stat.get? q = some v)
    (ha : ∀ a ∈ e.accounts text s dice, ¬s.stat.Crosses a.1 q ∧ ¬s.stat.Overturns a.1 q) :
    s'.display.get? q = some v := by
  have ⟨hv, hk⟩ := hs.get? hq
  rw [display_get? hl hb hs hk, (Tree.sameWay_record hq ha).get?, hq, Option.map_some, hv.clean]

theorem gone_display (hl : e.listeners = [])
    (hb : (e.batch text s dice).run host = ((r, s', dice'), host')) (hs : Meta.Bare s.stat)
    (hq : s.stat.get? q = some v) (ha : ∀ a ∈ e.accounts text s dice, a.1.Apart q)
    (ho : ∃ a ∈ e.accounts text s dice, s.stat.Overturns a.1 q) : s'.display.Gone q := by
  have ⟨_, hk⟩ := hs.get? hq
  rw [Tree.Gone, display_get? hl hb hs hk]
  obtain hg | hg := Tree.gone_record hq ha ho
  · exact .inl <| by rw [hg]; rfl
  · exact .inr <| by rw [hg]; rfl

-- What no account leads through is shown as it was, unless an account overturns a container above it.
-- Then it is gone, however far apart the two are.
theorem display_keeps_unless_overturned (hl : e.listeners = [])
    (hb : (e.batch text s dice).run host = ((r, s', dice'), host')) (hs : Meta.Bare s.stat)
    (hq : s.stat.get? q = some v) :
    ((∀ a ∈ e.accounts text s dice, ¬s.stat.Crosses a.1 q ∧ ¬s.stat.Overturns a.1 q) →
      s'.display.get? q = some v) ∧
    ((∀ a ∈ e.accounts text s dice, a.1.Apart q) →
      ((∀ a ∈ e.accounts text s dice, ¬s.stat.Overturns a.1 q) ∧ s'.display.get? q = some v) ∨
      ((∃ a ∈ e.accounts text s dice, s.stat.Overturns a.1 q) ∧ s'.display.Gone q)) := by
  refine ⟨display_keeps hl hb hs hq, fun ha => ?_⟩
  by_cases ho : ∃ a ∈ e.accounts text s dice, s.stat.Overturns a.1 q
  case pos => exact .inr ⟨ho, gone_display hl hb hs hq ha ho⟩
  case neg =>
    have ho : ∀ a ∈ e.accounts text s dice, ¬s.stat.Overturns a.1 q := by simpa using ho
    exact .inl ⟨ho, display_keeps hl hb hs hq fun a h => ⟨Tree.not_crosses_of_apart (ha a h), ho a h⟩⟩

def quiet : Engine Unit where

def packs : State where
  stat := .obj [("packs", .arr [.str "rope", .arr [.str "oil", .str "wick"], .obj [("of", .str "tin")]])]

theorem bare_packs : Meta.Bare packs.stat := by
  decide +kernel

-- The rope is gone when the tin turns to iron, which has moved up to where the lamp was by then.
def forging : String :=
  "_.delete(packs[0]);_.set(packs[1].of,\"iron\");"

def forged : Report × State × Dice :=
  ((quiet.batch forging packs ⟨[], 0⟩).run ()).1

theorem batch_forging : (quiet.batch forging packs ⟨[], 0⟩).run () = (forged, ()) :=
  rfl

theorem forging_accounts : quiet.accounts forging packs ⟨[], 0⟩ =
    [([.key "packs", .index 0], "removed \"rope\""),
      ([.key "packs", .index 1, .key "of"], "tin->iron")] := by
  decide +kernel

-- The display view shows the tin where the oil and the wick were, and neither of them anywhere.
theorem forged_loses_oil :
    Meta.Bare packs.stat ∧
      packs.stat.get? [.key "packs", .index 1, .index 0] = some (.str "oil") ∧
      (∀ a ∈ quiet.accounts forging packs ⟨[], 0⟩, a.1.Apart [.key "packs", .index 1, .index 0]) ∧
      forged.2.1.display.get? [.key "packs", .index 1, .index 0] = none := by
  refine ⟨bare_packs, rfl, ?_, by decide +kernel⟩
  rw [forging_accounts]
  decide

-- The tin that was there before is still shown in its old place.
theorem forged_keeps_tin :
    packs.stat.get? [.key "packs", .index 2, .key "of"] = some (.str "tin") ∧
      forged.2.1.display.get? [.key "packs", .index 2, .key "of"] = some (.str "tin") := by
  have hq : packs.stat.get? [.key "packs", .index 2, .key "of"] = some (.str "tin") := rfl
  have h := display_keeps_unless_overturned rfl batch_forging bare_packs hq
  rw [forging_accounts] at h
  exact ⟨hq, h.1 (by decide)⟩

/-! ## The delta view -/

-- An account stays where it has been written, unless one that is written later leads through its place
-- or overturns a container above it. Apart from it, only the latter can be.
theorem delta_keeps_unless_overturned (hl : e.listeners = [])
    (hb : (e.batch text s dice).run host = ((r, s', dice'), host'))
    (hs : e.accounts text s dice = before ++ (path, account) :: after) :
    let written := Tree.emptyMap.record (before ++ [(path, account)])
    ((∀ a ∈ after, ¬written.Crosses a.1 path ∧ ¬written.Overturns a.1 path) →
      s'.delta.get? path = some (.str account)) ∧
    ((∀ a ∈ after, a.1.Apart path) →
      (s'.delta.get? path = some (.str account) ↔ ∀ a ∈ after, ¬written.Overturns a.1 path)) := by
  intro written
  have hw : written.get? path = some (.str account) := by
    simp [written, Tree.record]
  have hd : s'.delta = written.record after := by
    rw [(batch_views hl hb).2, hs]
    simp only [written, Tree.record, List.foldl_append, List.foldl_cons, List.foldl_nil]
  rw [hd]
  refine ⟨fun ha => ?_, Tree.get?_record_iff hw (by simp)⟩
  exact (Tree.sameWay_record hw ha).get?.trans hw

-- The removal of the rope is told beside what comes after it.
theorem forged_tells_rope :
    quiet.accounts forging packs ⟨[], 0⟩ = [([.key "packs", .index 0], "removed \"rope\"")] ++
        [([.key "packs", .index 1, .key "of"], "tin->iron")] ∧
      forged.2.1.delta.get? [.key "packs", .index 0] = some (.str "removed \"rope\"") := by
  have ha : quiet.accounts forging packs ⟨[], 0⟩ = [] ++ (_, _) :: _ := forging_accounts
  exact ⟨forging_accounts, (delta_keeps_unless_overturned rfl batch_forging ha).1 (by decide)⟩

def cellar : State where
  stat := .obj [("casks", .obj [("0", .str "ale"), ("rye", .str "malt")])]

def filling : String :=
  "_.set(casks[0],\"wine\");_.set(casks.rye,\"oats\");"

def filled : Report × State × Dice :=
  ((quiet.batch filling cellar ⟨[], 0⟩).run ()).1

theorem filling_accounts : quiet.accounts filling cellar ⟨[], 0⟩ =
    [([.key "casks", .index 0], "ale->wine"), ([.key "casks", .key "rye"], "malt->oats")] := by
  decide +kernel

-- The two casks are apart, and only one of them is in the delta view.
theorem filled_loses_wine :
    quiet.accounts filling cellar ⟨[], 0⟩ =
        [([.key "casks", .index 0], "ale->wine"), ([.key "casks", .key "rye"], "malt->oats")] ∧
      Path.Apart [.key "casks", .key "rye"] [.key "casks", .index 0] ∧
      filled.2.1.delta.get? [.key "casks", .index 0] = none :=
  ⟨filling_accounts, by decide, by decide +kernel⟩

-- What is found in the delta view: a null in a list, an account that has been reported for this very
-- place, or a container that is not empty, the view itself apart.
theorem delta_tells (hl : e.listeners = [])
    (hb : (e.batch text s dice).run host = ((r, s', dice'), host')) (hv : s'.delta.get? path = some v) :
    (v = .null ∧ s'.delta.HoldsItem path) ∨
    (∃ account p place, v = .str account ∧ (p, account) ∈ e.accounts text s dice ∧
      s'.delta.place? p = some place ∧ s'.delta.place? path = some place) ∨
    (∃ items, v = .arr items ∧ items ≠ []) ∨
    (∃ fields, v = .obj fields ∧ (fields = [] → path = [])) := by
  have ht : s'.delta = .emptyMap ∨ Tree.Tells (fun p a => (p, a) ∈ e.accounts text s dice) s'.delta :=
    (batch_views hl hb).2 ▸ Tree.tells_record (.inl rfl) fun _ hr => hr
  obtain he | ht := ht
  · rw [he] at hv
    cases path
    case nil  => exact .inr <| .inr <| .inr ⟨[], (Option.some.inj hv).symm, fun _ => rfl⟩
    case cons => simp [Tree.emptyMap, Tree.child?] at hv
  obtain hn | ⟨reported', hv', hr⟩ := ht.get? hv
  · exact .inl hn
  obtain ⟨place, hp⟩ := Tree.exists_place? hv
  cases hv' with
  | account h =>
    obtain ⟨p, hm, hpp⟩ := hr [] _ h
    exact .inr <| .inl ⟨_, p, place, rfl, by simpa using hm, hpp.trans hp, hp⟩
  | arr hne _ => exact .inr <| .inr <| .inl ⟨_, rfl, hne⟩
  | obj hne _ => exact .inr <| .inr <| .inr ⟨_, rfl, fun h => absurd h hne⟩

-- The iron has one place in the view, and it has been reported there.
theorem forged_tells_iron :
    forged.2.1.delta.get? [.key "packs", .index 1, .key "of"] = some (.str "tin->iron") ∧
      ∃ p place, (p, "tin->iron") ∈ quiet.accounts forging packs ⟨[], 0⟩ ∧
        forged.2.1.delta.place? p = some place ∧
        forged.2.1.delta.place? [.key "packs", .index 1, .key "of"] = some place := by
  have hv : forged.2.1.delta.get? [.key "packs", .index 1, .key "of"] = some (.str "tin->iron") := by
    decide +kernel
  obtain ⟨h, _⟩ | ⟨_, p, place, h, hm, hp, hpath⟩ | ⟨_, h, _⟩ | ⟨_, h, _⟩ :=
    delta_tells rfl batch_forging hv
  · cases h
  · cases h
    exact ⟨hv, p, place, hm, hp, hpath⟩
  · cases h
  · cases h

end Engine

end Storyworld
