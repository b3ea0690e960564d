import Storyworld.Proofs.Engine.Progress
import Storyworld.Proofs.Operation.Announcement

/-!
What listeners put on record that do nothing else: the start of a batch, its commands, each change as it
is made, and the end; then the last failure. At every point each of them is called once, in their order.
-/

namespace Storyworld

variable {ε : Type}

-- What such a listener writes down at the four points.
structure Recorder (ε : Type) where
  started : State → ε
  parsed : State → List Command → ε
  changed : Change → Trees → ε
  ended : State → ε

def note (record : ε) : StateM (List ε) Unit :=
  modify (· ++ [record])

def Recorder.listener (r : Recorder ε) : Listener (List ε) where
  started s := do
    note (r.started s)
    return s
  parsed s commands := do
    note (r.parsed s commands)
    return commands
  changed change trees := do
    note (r.changed change trees)
    return trees
  ended s := do
    note (r.ended s)
    return s

theorem run_bind_of_eq {σ α β : Type} {x : StateM σ α} {f : α → StateM σ β} {a : α} {s s' : σ}
    (h : x.run s = (a, s')) : (x >>= f).run s = (f a).run s' := by
  rw [StateT.run_bind, h]
  rfl

theorem inTurn_recorders {α : Type} {point : Listener (List ε) → α → StateM (List ε) α}
    {record : Recorder ε → α → ε}
    (h : ∀ r a log, (point r.listener a).run log = (a, log ++ [record r a]))
    (recorders : List (Recorder ε)) (a : α) (log : List ε) :
    (Listener.inTurn (recorders.map Recorder.listener) point a).run log =
      (a, log ++ recorders.map (record · a)) := by
  induction recorders generalizing log
  case nil => exact congrArg (a, ·) (List.append_nil log).symm
  case cons r recorders ih =>
    rw [Listener.inTurn, List.map_cons, List.foldlM_cons, run_bind_of_eq (h r a log)]
    exact (ih (log ++ [record r a])).trans (by simp)

section

variable (recorders : List (Recorder ε)) (s : State) (log : List ε)

theorem started_records :
    (Listener.inTurn (recorders.map Recorder.listener) Listener.started s).run log =
      (s, log ++ recorders.map (·.started s)) :=
  inTurn_recorders (fun _ _ _ => rfl) recorders s log

theorem parsed_records (commands : List Command) :
    (Listener.inTurn (recorders.map Recorder.listener) (·.parsed s) commands).run log =
      (commands, log ++ recorders.map (·.parsed s commands)) :=
  inTurn_recorders (fun _ _ _ => rfl) recorders commands log

theorem changed_records (change : Change) (trees : Trees) :
    (Listener.inTurn (recorders.map Recorder.listener) (·.changed change) trees).run log =
      (trees, log ++ recorders.map (·.changed change trees)) :=
  inTurn_recorders (fun _ _ _ => rfl) recorders trees log

theorem ended_records :
    (Listener.inTurn (recorders.map Recorder.listener) Listener.ended s).run log =
      (s, log ++ recorders.map (·.ended s)) :=
  inTurn_recorders (fun _ _ _ => rfl) recorders s log

end

namespace Progress

variable {p p' : Progress} {flags : Flags} {recorders : List (Recorder ε)} {attempts : List Attempt}
  {told : List ε}

-- A run of commands, with what came of each of them, and what is told about it as it goes on.
inductive Course (flags : Flags) (recorders : List (Recorder ε)) :
    Progress → List Attempt → List ε → Progress → Prop where
  | done {p : Progress} : Course flags recorders p [] [] p
  | announced {p p' : Progress} {c : Command} {applied : Applied} {change : Change}
    {attempts : List Attempt} {told : List ε}
    (hr : (c.run flags p.state p.dice).1 = .ok applied) (hs : ¬c.IsSelective)
    (hc : applied.change = some change) (h : Course flags recorders (p.take flags c) attempts told p') :
    Course flags recorders p ((c, .ok applied) :: attempts)
      (recorders.map (·.changed change (p.take flags c).trees) ++ told) p'
  | selective {p p' : Progress} {c : Command} {applied : Applied} {attempts : List Attempt}
    {told : List ε} (hr : (c.run flags p.state p.dice).1 = .ok applied) (hs : c.IsSelective)
    (h : Course flags recorders (p.take flags c) attempts told p') :
    Course flags recorders p ((c, .ok applied) :: attempts) told p'
  | failed {p p' : Progress} {c : Command} {error : CommandError} {attempts : List Attempt}
    {told : List ε} (hr : (c.run flags p.state p.dice).1 = .error error)
    (h : Course flags recorders (p.take flags c) attempts told p') :
    Course flags recorders p ((c, .error error) :: attempts) told p'

theorem Course.report (h : Course flags recorders p attempts told p') :
    p'.report = attempts.foldl Report.after p.report := by
  induction h
  case done => rfl
  all_goals simp_all [report_take]

end Progress

namespace Engine

variable {e : Engine (List ε)} {recorders : List (Recorder ε)} {flags : Flags} {p : Progress} {c : Command}
  {log : List ε}

theorem step_of_error {error : CommandError} (hr : (c.run flags p.state p.dice).1 = .error error) :
    (e.step flags p c).run log = (p.take flags c, log) := by
  unfold step Progress.take
  generalize c.run flags p.state p.dice = r at hr ⊢
  obtain ⟨_, state, dice⟩ := r
  obtain rfl := hr
  rfl

section

variable (he : e.listeners = recorders.map Recorder.listener)

include he

theorem announce_records (change : Option Change) (trees : Trees) :
    (e.announce change trees).run log =
      (trees, log ++ change.elim [] fun change => recorders.map (·.changed change trees)) := by
  cases change
  case none => exact congrArg (trees, ·) (List.append_nil log).symm
  case some change =>
    rw [announce, he]
    exact changed_records ..

theorem step_of_ok {applied : Applied} (hr : (c.run flags p.state p.dice).1 = .ok applied) :
    (e.step flags p c).run log =
      (p.take flags c, log ++ applied.change.elim [] fun change =>
        recorders.map (·.changed change (p.take flags c).trees)) := by
  unfold step Progress.take
  generalize c.run flags p.state p.dice = r at hr ⊢
  obtain ⟨_, state, dice⟩ := r
  obtain rfl := hr
  dsimp only
  rw [StateT.run_bind, announce_records he]
  rfl

theorem exists_course (flags : Flags) (p : Progress) (cs : List Command) (log : List ε) :
    ∃ attempts told p', attempts.map Prod.fst = cs ∧ p.Course flags recorders attempts told p' ∧
      (cs.foldlM (e.step flags) p).run log = (p', log ++ told) := by
  induction cs generalizing p log
  case nil => exact ⟨[], [], p, rfl, .done, congrArg (p, ·) (List.append_nil log).symm⟩
  case cons c cs ih =>
    simp only [List.foldlM_cons, StateT.run_bind]
    cases hr : (c.run flags p.state p.dice).1
    case error error =>
      obtain ⟨attempts, told, p', rfl, hc, hf⟩ := ih (p.take flags c) log
      rw [step_of_error hr]
      exact ⟨_, _, p', rfl, .failed hr hc, hf⟩
    case ok applied =>
      rw [step_of_ok he hr]
      by_cases hs : c.IsSelective
      case pos =>
        have hn : applied.change = none := by
          simpa [Applied.IsAnnounced, hs] using Command.isAnnounced_run hr
        obtain ⟨attempts, told, p', rfl, hc, hf⟩ := ih (p.take flags c) log
        rw [hn, Option.elim_none, List.append_nil]
        exact ⟨_, _, p', rfl, .selective hr hs hc, hf⟩
      case neg =>
        obtain ⟨change, hn⟩ := Option.isSome_iff_exists.mp <| (Command.isAnnounced_run hr).mpr hs
        rw [hn, Option.elim_some]
        obtain ⟨attempts, told, p', rfl, hc, hf⟩ := ih (p.take flags c) (log ++ _)
        exact ⟨_, _, p', rfl, .announced hr hs hn hc, hf.trans (by rw [List.append_assoc])⟩

end

variable {config : Config} {substitute : String → String} {sink : Failure → ε} {text : String} {s : State}
  {dice : Dice}

-- An engine that is watched by recorders, with its failures reported on the same record.
def recording (config : Config) (substitute : String → String) (recorders : List (Recorder ε))
    (sink : Failure → ε) : Engine (List ε) where
  config
  listeners := recorders.map Recorder.listener
  substitute
  report failure := note (sink failure)

theorem notify_records (r : Report) :
    ((recording config substitute recorders sink).notify r).run log =
      ((), log ++ if config.notifyErrors then (r.failure.map sink).toList else []) := by
  unfold notify
  cases r.failure
  case none =>
    rw [Option.map_none, Option.toList_none, ite_self, List.append_nil]
    rfl
  case some failure =>
    have hc : (recording config substitute recorders sink).config = config := rfl
    rw [hc]
    cases config.notifyErrors
    case false => exact congrArg (_, ·) (List.append_nil log).symm
    case true  => rfl

theorem batch_records :
    let commands := (Command.extract (substitute text)).map Command.canonical
    let e := recording config substitute recorders sink
    ∃ attempts told p, attempts.map Prod.fst = commands ∧
      Progress.Course (e.flags s) recorders ⟨s, s.stat, .emptyMap, dice, {}⟩ attempts told p ∧
      ((e.batch text s dice).run log).2 =
        log ++ recorders.map (·.started s) ++ recorders.map (·.parsed s commands) ++ told ++
        recorders.map (·.ended { p.state with display := Meta.clean p.display, delta := p.delta }) ++
        if config.notifyErrors then ((attempts.filterMap Attempt.failure?).getLast?.map sink).toList
        else [] := by
  intro commands e
  have hs := started_records recorders s log
  have hp := parsed_records recorders s (log ++ recorders.map (·.started s)) commands
  obtain ⟨attempts, told, p, ha, hc, hf⟩ := exists_course (e := e) rfl (e.flags s)
    ⟨s, s.stat, .emptyMap, dice, {}⟩ commands
    (log ++ recorders.map (·.started s) ++ recorders.map (·.parsed s commands))
  have hr : p.report.failure = (attempts.filterMap Attempt.failure?).getLast? := by
    simp [hc.report, Report.foldl_after, Report.ofAttempts]
  refine ⟨attempts, told, p, ha, hc, ?_⟩
  have hb : (e.batch text s dice).run log = _ := (run_bind_of_eq hs).trans <| (run_bind_of_eq hp).trans <|
    (run_bind_of_eq hf).trans <| (run_bind_of_eq (ended_records ..)).trans <|
    run_bind_of_eq (notify_records p.report)
  rw [hb, hr]
  rfl

end Engine

end Storyworld
