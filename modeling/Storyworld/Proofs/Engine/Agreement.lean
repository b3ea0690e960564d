import Storyworld.Proofs.Engine.Flags
import Storyworld.Proofs.Engine.Progress

/-!
Batches and single commands. A batch settles its flags before its first command, and a command that is
run by itself looks them up anew; as long as the metadata of the root stays, both come to the same.
-/

namespace Storyworld

theorem Command.canonical_run (c : Command) (flags : Flags) (s : State) (dice : Dice) :
    c.canonical.run flags s dice = c.run flags s dice := by
  have h : Operation.ofCommand c.canonical dice = Operation.ofCommand c dice := by
    simp only [Operation.ofCommand, Operation.read, target, canonical, Verb.canonical_canonical]
  simp only [run, h]
  rfl

namespace Engine

variable {σ : Type} {e : Engine σ} {text : String} {s s' : State} {dice dice' : Dice} {host host' : σ}
  {r : Report} {flags : Flags} {p : Progress} {cs : List Command}

-- Commands run by themselves one after the other, each on the state that the one before it has left.
def runEach (e : Engine σ) : List Command → State → Dice → List Attempt × State × Dice
  | [], s, dice => ([], s, dice)
  | c :: cs, s, dice =>
    let (result, s, dice) := e.runCommand c s dice
    let (attempts, s, dice) := e.runEach cs s dice
    ((c, result) :: attempts, s, dice)

-- None of them changes the metadata of the root.
def KeepsRootMeta (e : Engine σ) : List Command → State → Dice → Prop
  | [], _, _ => True
  | c :: cs, s, dice =>
    let (_, s', dice) := e.runCommand c s dice
    s'.stat.field? Meta.key = s.stat.field? Meta.key ∧ e.KeepsRootMeta cs s' dice

theorem take_canonical {c : Command} : p.take flags c.canonical = p.take flags c := by
  unfold Progress.take
  rw [c.canonical_run]
  rfl

-- The flags of the first command are those of every command that is run by itself.
theorem foldl_take_runEach (hf : e.flags p.state = flags) (hk : e.KeepsRootMeta cs p.state p.dice) :
    let p' := (cs.map Command.canonical).foldl (Progress.take · flags) p
    p'.state = (e.runEach cs p.state p.dice).2.1 ∧ p'.dice = (e.runEach cs p.state p.dice).2.2 ∧
      p'.report = (e.runEach cs p.state p.dice).1.foldl Report.after p.report := by
  induction cs generalizing p
  case nil => exact ⟨rfl, rfl, rfl⟩
  case cons c cs ih =>
    have ⟨hm, hk⟩ := hk
    have hs : (p.take flags c).state = (e.runCommand c p.state p.dice).2.1 := by
      rw [Progress.state_take, runCommand, hf]
    have hd : (p.take flags c).dice = (e.runCommand c p.state p.dice).2.2 := by
      rw [Progress.dice_take, runCommand, hf]
    have hr : (p.take flags c).report = p.report.after (c, (e.runCommand c p.state p.dice).1) := by
      rw [Progress.report_take, runCommand, hf]
    have h := ih (p := p.take flags c) (hs ▸ hf ▸ flags_runCommand hm) (by rw [hs, hd]; exact hk)
    rw [hs, hd, hr] at h
    rw [List.map_cons, List.foldl_cons, take_canonical]
    exact h

theorem foldlM_step_runEach (hl : e.listeners = []) (host : σ) (p : Progress) (cs : List Command)
    (hf : e.flags p.state = flags) (hk : e.KeepsRootMeta cs p.state p.dice) :
    ∃ p', ((cs.map Command.canonical).foldlM (e.step flags) p).run host = (p', host) ∧
      p'.state = (e.runEach cs p.state p.dice).2.1 ∧ p'.dice = (e.runEach cs p.state p.dice).2.2 ∧
      p'.report = (e.runEach cs p.state p.dice).1.foldl Report.after p.report :=
  ⟨_, by rw [foldlM_step_quiet hl]; rfl, foldl_take_runEach hf hk⟩

theorem batch_eq_runEach (hl : e.listeners = [])
    (hk : e.KeepsRootMeta (Command.extract (e.substitute text)) s dice)
    (hb : (e.batch text s dice).run host = ((r, s', dice'), host')) :
    let alone := e.runEach (Command.extract (e.substitute text)) s dice
    let settled :=
      if alone.1.any (·.2.isOk) then alone.2.1.settle e.config.flags else alone.2.1
    s'.stat = settled.stat ∧ s'.schema = settled.schema ∧ dice' = alone.2.2 ∧
      r = .ofAttempts alone.1 := by
  obtain ⟨p, hp, hs, hd, hr⟩ := foldlM_step_runEach hl host ⟨s, s.stat, .emptyMap, dice, {}⟩ _ rfl hk
  simp only [batch, commands, hl, Listener.inTurn_nil, StateT.run_bind, StateT.run_pure, pure_bind,
    hp] at hb
  obtain rfl : p.report = r := congrArg (·.1.1) hb
  obtain rfl : p.dice = dice' := congrArg (·.1.2.2) hb
  have hs' := congrArg (·.1.2.1) hb
  dsimp only [bind, pure] at hs hd hr hs' ⊢
  generalize e.runEach (Command.extract (e.substitute text)) s dice = alone at hs hd hr ⊢
  have hr : p.report = .ofAttempts alone.1 := by simpa [Report.foldl_after] using hr
  rw [← Report.modified_ofAttempts, ← hr, ← hs', ← hs]
  refine ⟨?_, ?_, hd, rfl⟩
  -- The views are the only difference, and what follows the commands does not look at them.
  all_goals cases p.report.modified <;> rfl

def unwatched : Engine Unit where

def satchel : State where
  stat := .obj [("$meta", .obj [("strictSet", .bool true)]), ("pouch", .arr []), ("mood", .str "grim")]

def provisioning : String :=
  "_.assign(pouch,\"rope\");_.remove(hat);_.set(mood,\"calm\");"

def provisioned : Report × State × Dice :=
  ((unwatched.batch provisioning satchel ⟨[], 0⟩).run ()).1

theorem batch_provisioning :
    (unwatched.batch provisioning satchel ⟨[], 0⟩).run () =
      ((provisioned.1, provisioned.2.1, provisioned.2.2), ()) :=
  rfl

-- The first command makes the schema, the second one fails, and the third one is run under the flags
-- of the first.
theorem provisioned_agrees :
    unwatched.KeepsRootMeta (Command.extract provisioning) satchel ⟨[], 0⟩ ∧
      provisioned.1 = ⟨2, some ⟨"_.remove(hat);", .pathNotFound [.key "hat"]⟩⟩ ∧
      provisioned.2.1.stat = .obj [("pouch", .arr [.str "rope"]), ("mood", .str "calm")] := by
  have hc : Command.extract (unwatched.substitute provisioning) =
      [⟨.assign, "_.assign(pouch,\"rope\");", ["pouch", "\"rope\""], ""⟩,
        ⟨.remove, "_.remove(hat);", ["hat"], ""⟩,
        ⟨.set, "_.set(mood,\"calm\");", ["mood", "\"calm\""], ""⟩] := by
    decide +kernel
  have hk :
      unwatched.KeepsRootMeta (Command.extract (unwatched.substitute provisioning)) satchel ⟨[], 0⟩ := by
    rw [hc]
    exact ⟨by decide +kernel, by decide +kernel, by decide +kernel, trivial⟩
  have ⟨hs, _, _, hr⟩ := batch_eq_runEach rfl hk batch_provisioning
  rw [hc] at hs hr
  exact ⟨hk, hr.trans (by decide +kernel), hs.trans (by decide +kernel)⟩

end Engine

end Storyworld
