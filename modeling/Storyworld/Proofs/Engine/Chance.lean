import Storyworld.Proofs.Command.Chance
import Storyworld.Proofs.Engine.Progress

/-!
Chance in batches. If the name of the random function does not occur in a text, its batch comes to the
same from all dice and leaves them as they are.
-/

namespace Storyworld

namespace Progress

variable {p : Progress} {flags : Flags} {c : Command} {cs : List Command} {dice : Dice}

theorem take_settled (hc : c.Settled) :
    ({ p with dice } : Progress).take flags c = { p.take flags c with dice } := by
  obtain ⟨result, state, hr⟩ := hc.run flags p.state
  simp only [take, hr]
  cases result <;> rfl

theorem foldl_take_settled (hs : ∀ c ∈ cs, c.Settled) :
    cs.foldl (take · flags) { p with dice } = { cs.foldl (take · flags) p with dice } := by
  induction cs generalizing p
  case nil => rfl
  case cons c cs ih =>
    obtain ⟨hc, hs⟩ := List.forall_mem_cons.mp hs
    rw [List.foldl_cons, List.foldl_cons, take_settled hc, ih hs]

end Progress

namespace Engine

variable {σ : Type} {e : Engine σ} {text : String} {flags : Flags} {c : Command} {cs : List Command}

theorem foldlM_step_settled (hl : e.listeners = []) (hs : ∀ c ∈ cs, c.Settled) (flags : Flags)
    (p : Progress) :
    ∃ p' : Progress, ∀ dice host,
      (cs.foldlM (e.step flags) { p with dice }).run host = ({ p' with dice }, host) :=
  ⟨_, fun dice host => by rw [foldlM_step_quiet hl, Progress.foldl_take_settled hs]; rfl⟩

theorem batch_settled (hl : e.listeners = [])
    (ht : ¬"random".toList <:+: (e.substitute text).toList) (s : State) (host : σ) :
    ∃ r s' host', ∀ dice, (e.batch text s dice).run host = ((r, s', dice), host') := by
  have hs : ∀ c ∈ (Command.extract (e.substitute text)).map Command.canonical, c.Settled := by
    intro c hm
    obtain ⟨c, hc, rfl⟩ := List.mem_map.mp hm
    exact Command.settled_of_not_infix fun arg ha hi =>
      ht (hi.trans (Command.infix_of_mem_args hc ha))
  obtain ⟨p, hp⟩ := foldlM_step_settled hl hs (e.flags s) ⟨s, s.stat, .emptyMap, ⟨[], 0⟩, {}⟩
  simp only [batch, commands, hl, Listener.inTurn_nil, StateT.run_bind, StateT.run_pure, pure_bind, hp]
  let published : State := { p.state with display := Meta.clean p.display, delta := p.delta }
  exact ⟨p.report, if p.report.modified then published.settle e.config.flags else published,
    ((e.notify p.report).run host).2, fun _ => rfl⟩

def orbit : String :=
  "_.set(turn, 2 * pi);//around"

def moon : State where
  stat := .obj [("turn", .str "none")]

theorem orbit_settled :
    ({} : Engine Unit).listeners = [] ∧ ¬"random".toList <:+: (({} : Engine Unit).substitute orbit).toList ∧
      ∃ r s' host', ∀ dice,
        (({} : Engine Unit).batch orbit moon dice).run () = ((r, s', dice), host') := by
  have ht : ¬"random".toList <:+: (({} : Engine Unit).substitute orbit).toList := by decide +kernel
  exact ⟨rfl, ht, batch_settled rfl ht moon ()⟩

end Engine

end Storyworld
