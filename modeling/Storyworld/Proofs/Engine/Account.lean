import Storyworld.Proofs.Engine.Progress
import Storyworld.Proofs.Tree.Survival

/-!
The accounts of a batch, and the two views as what is left when they have been written one after the
other: into the tree before the batch, and into an empty one.
-/

namespace Storyworld

-- What the commands that succeed report, in the order in which they run.
def Command.accounts (flags : Flags) : List Command → State → Dice → List (Path × String)
  | [], _, _ => []
  | c :: cs, s, dice =>
    let (result, s, dice) := c.run flags s dice
    match result with
    | .error _ => accounts flags cs s dice
    | .ok applied => applied.accounts ++ accounts flags cs s dice

theorem Command.accounts_cons {flags : Flags} {c : Command} {cs : List Command} {s : State} {dice : Dice} :
    accounts flags (c :: cs) s dice = accounts flags [c] s dice ++
      accounts flags cs (c.run flags s dice).2.1 (c.run flags s dice).2.2 := by
  simp only [accounts]
  obtain ⟨_ | applied, s, dice⟩ := c.run flags s dice <;> simp

namespace Tree

variable {t : Tree} {accounts more : List (Path × String)}

theorem record_append : t.record (accounts ++ more) = (t.record accounts).record more :=
  List.foldl_append

-- What every single account keeps is kept by all of them.
theorem record_induction {P : Tree → Prop} (h : P t)
    (hs : ∀ r ∈ accounts, ∀ u : Tree, P u → P (u.set r.1 (.str r.2))) : P (t.record accounts) :=
  List.foldlRecOn accounts _ h fun u hu r hr => hs r hr u hu

end Tree

namespace Progress

variable {p : Progress} {flags : Flags} {c : Command}

-- A command that fails leaves the views alone, any other one is written into both.
theorem views_take :
    (p.take flags c).display = p.display.record (Command.accounts flags [c] p.state p.dice) ∧
      (p.take flags c).delta = p.delta.record (Command.accounts flags [c] p.state p.dice) := by
  unfold take Command.accounts
  obtain ⟨_ | applied, state, dice⟩ := c.run flags p.state p.dice
  case error => exact ⟨rfl, rfl⟩
  case ok    => simp [Command.accounts]

theorem views_foldl_take (flags : Flags) (p : Progress) (cs : List Command) :
    let p' := cs.foldl (take · flags) p
    p'.display = p.display.record (Command.accounts flags cs p.state p.dice) ∧
      p'.delta = p.delta.record (Command.accounts flags cs p.state p.dice) := by
  induction cs generalizing p
  case nil => exact ⟨rfl, rfl⟩
  case cons c cs ih =>
    rw [List.foldl_cons, Command.accounts_cons]
    obtain ⟨hd, hv⟩ := ih (p.take flags c)
    simp only [Tree.record_append, ← views_take, ← state_take, ← dice_take, hd, hv, and_self]

end Progress

namespace Engine

variable {σ : Type} {e : Engine σ} {text : String} {s s' : State} {dice dice' : Dice} {host host' : σ}
  {r : Report}

def accounts (e : Engine σ) (text : String) (s : State) (dice : Dice) : List (Path × String) :=
  Command.accounts (e.flags s) ((Command.extract (e.substitute text)).map Command.canonical) s dice

-- What follows the commands touches neither view again.
theorem batch_views (hl : e.listeners = [])
    (hb : (e.batch text s dice).run host = ((r, s', dice'), host')) :
    s'.display = Meta.clean (s.stat.record (e.accounts text s dice)) ∧
      s'.delta = Tree.emptyMap.record (e.accounts text s dice) := by
  obtain ⟨hd, hv⟩ := Progress.views_foldl_take (e.flags s) ⟨s, s.stat, .emptyMap, dice, {}⟩
    ((Command.extract (e.substitute text)).map Command.canonical)
  simp only [batch, commands, hl, Listener.inTurn_nil, StateT.run_bind, StateT.run_pure, pure_bind,
    foldlM_step_quiet hl] at hb
  obtain rfl := congrArg (·.1.2.1) hb
  rw [accounts, ← hd, ← hv]
  dsimp only [bind, pure]
  split <;> exact ⟨rfl, rfl⟩

end Engine

end Storyworld
