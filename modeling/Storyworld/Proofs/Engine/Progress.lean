import Storyworld.Engine.Batch

/-!
The progress of a batch, command by command. Where no listener steps in, all the commands of a batch come
to a fold over them.
-/

namespace Storyworld

-- A command that has been run, with what came of it.
abbrev Attempt := Command × Except CommandError Applied

def Attempt.failure? (a : Attempt) : Option Failure :=
  match a.2 with
  | .ok _ => none
  | .error error => some ⟨a.1.call, error⟩

namespace Report

variable {r : Report} {attempts : List Attempt}

-- The number of successes and the last failure.
def ofAttempts (attempts : List Attempt) : Report where
  applied := attempts.countP (·.2.isOk)
  failure := (attempts.filterMap Attempt.failure?).getLast?

def after (r : Report) (a : Attempt) : Report where
  applied := r.applied + if a.2.isOk then 1 else 0
  failure := a.failure?.or r.failure

theorem foldl_after :
    attempts.foldl after r =
      ⟨r.applied + (ofAttempts attempts).applied, (ofAttempts attempts).failure.or r.failure⟩ := by
  induction attempts generalizing r
  case nil => rfl
  case cons a attempts ih =>
    rw [List.foldl_cons, ih]
    simp only [after, ofAttempts, List.countP_cons, List.filterMap_cons]
    congr 1
    · omega
    · cases a.failure? <;> simp [List.getLast?_cons]

theorem modified_ofAttempts : (ofAttempts attempts).modified = attempts.any (·.2.isOk) := by
  rw [Bool.eq_iff_iff, List.any_eq_true, modified, decide_eq_true_iff, ofAttempts, List.countP_pos_iff]

end Report

namespace Progress

variable {p : Progress} {flags : Flags} {c : Command}

def trees (p : Progress) : Trees :=
  ⟨p.state.stat, p.display, p.delta⟩

-- The progress behind one more command, if nobody steps in.
def take (p : Progress) (flags : Flags) (c : Command) : Progress :=
  let (result, state, dice) := c.run flags p.state p.dice
  let report := p.report.after (c, result)
  match result with
  | .error _ => { p with state, dice, report }
  | .ok applied =>
    { state, dice, report
      display := p.display.record applied.accounts
      delta := p.delta.record applied.accounts }

theorem state_take : (p.take flags c).state = (c.run flags p.state p.dice).2.1 := by
  unfold take
  split
  next h => split <;> rw [h]

theorem dice_take : (p.take flags c).dice = (c.run flags p.state p.dice).2.2 := by
  unfold take
  split
  next h => split <;> rw [h]

theorem report_take :
    (p.take flags c).report = p.report.after (c, (c.run flags p.state p.dice).1) := by
  unfold take
  split
  next h => split <;> simp [h]

end Progress

namespace Engine

variable {σ : Type} {e : Engine σ} {flags : Flags} {p : Progress} {c : Command} {cs : List Command}
  {change : Option Change} {trees : Trees}

theorem announce_quiet (hl : e.listeners = []) : e.announce change trees = pure trees := by
  cases change
  case none        => rfl
  case some change => rw [announce, hl, Listener.inTurn_nil]

theorem step_quiet (hl : e.listeners = []) : e.step flags p c = pure (p.take flags c) := by
  unfold step Progress.take
  obtain ⟨_ | applied, state, dice⟩ := c.run flags p.state p.dice
  case error => rfl
  case ok =>
    dsimp only
    rw [announce_quiet hl, pure_bind]
    rfl

theorem foldlM_step_quiet (hl : e.listeners = []) :
    cs.foldlM (e.step flags) p = pure (cs.foldl (Progress.take · flags) p) := by
  have hs : e.step flags = fun p c => pure (p.take flags c) := by
    funext p c
    exact step_quiet hl
  rw [hs, List.foldlM_pure]

end Engine

end Storyworld
