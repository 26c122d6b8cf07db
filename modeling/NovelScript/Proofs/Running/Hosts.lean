import NovelScript.Proofs.Reading.Refusal

/-!
Hosts that never stop a run. What such a host does with an action may depend on its world, and the
world may hold anything; but what a run does next never depends on it. Main statement: a script that
a session executes has one list of actions and one result, and every host that goes on takes part
in exactly these actions.
-/

namespace NovelScript

open Script (Action Host Outcome)

namespace Script

variable {σ τ : Type} {μ : Type → Type} [Monad μ]

/-- What is done with actions, one after the other, from a world on. -/
def Action.playAll (play : Action → τ → μ τ) (actions : List Action) (t : τ) : μ τ :=
  actions.foldlM (fun t action => play action t) t

/-- The host never gives a reason to stop, at least in the worlds `world t`. There it does what
`play` does, which leads from one of these worlds to another. -/
structure Host.GoesOn (host : Host (StateT σ μ)) (world : τ → σ) (play : Action → τ → μ τ) :
    Prop where
  perform : ∀ event t,
    (host.perform event).run (world t) = do return (none, world (← play (.ask event) t))
  tell : ∀ report t,
    (host.tell report).run (world t) = do return ((), world (← play (.tell report) t))

/-- The world behind an action that the host takes part in. -/
def Host.react (host : Host (StateM σ)) (world : σ) : Action → σ
  | .ask event => ((host.perform event).run world).2
  | .tell report => ((host.tell report).run world).2

/-- A host with a world of its own goes on if no event is a reason to stop, in any world. -/
theorem Host.goesOn_of_forall {host : Host (StateM σ)}
    (h : ∀ event world, ((host.perform event).run world).1 = none) :
    host.GoesOn id fun action world => host.react world action :=
  ⟨fun event world => Prod.ext (h event world) rfl, fun _ _ => rfl⟩

section

variable [LawfulMonad μ] {host : Host (StateT σ μ)} {world : τ → σ} {play : Action → τ → μ τ}

theorem Action.playAll_append (a b : List Action) (t : τ) :
    playAll play (a ++ b) t = playAll play a t >>= playAll play b :=
  List.foldlM_append

theorem Host.GoesOn.tellAll (h : host.GoesOn world play) (reports : List Report) : ∀ t,
    (reports.forM host.tell).run (world t) = do
      return ((), world (← Action.playAll play (reports.map .tell) t)) := by
  induction reports with
  | nil =>
    intro t
    simp only [List.map_nil, Action.playAll, List.foldlM_nil, pure_bind]
    rfl
  | cons report reports ih =>
    intro t
    show (host.tell report >>= fun _ => reports.forM host.tell).run (world t) = _
    rw [StateT.run_bind, h.tell]
    simp only [bind_assoc, pure_bind, ih, Action.playAll, List.map_cons, List.foldlM_cons]

end

namespace Machine

variable {n : Nat} {machine after : Machine} {log : Array Report} {event? : Option Event}
  {actions : List Action} {result : Outcome × Machine × Array Report}

/-- A run takes these actions, and ends with this result: whatever the host's world is, it takes
part in the actions one after the other, unless it gives a reason to stop. -/
def Plays (n : Nat) (machine : Machine) (log : Array Report) (actions : List Action)
    (result : Outcome × Machine × Array Report) : Prop :=
  ∀ ⦃σ τ : Type⦄ ⦃μ : Type → Type⦄ [Monad μ] [LawfulMonad μ] (host : Host (StateT σ μ))
    (world : τ → σ) (play : Action → τ → μ τ), host.GoesOn world play → ∀ t,
    (run host n machine log).run (world t) = do
      return (result, world (← Action.playAll play actions t))

theorem plays_zero (machine : Machine) (log : Array Report) :
    Plays 0 machine log [] (.unfinished, machine, log) := by
  intro σ τ μ _ _ host world play _ t
  simp only [Action.playAll, List.foldlM_nil, pure_bind]
  rfl

theorem plays_none (h : machine.next? = none) (n : Nat) (log : Array Report) :
    Plays (n + 1) machine log [.tell .finished] (.finished, machine, log.push .finished) := by
  intro σ τ μ _ _ host world play hgoes t
  rw [run, h]
  simp only [StateT.run_bind, hgoes.tell, bind_assoc, pure_bind, Action.playAll,
    List.foldlM_cons, List.foldlM_nil, bind_pure]
  rfl

/-- The reports of a step are told before anything is asked for. -/
theorem Plays.step (hplays : Plays n after (log ++ after.reports) actions result)
    (h : machine.next? = some (event?, after)) :
    Plays (n + 1) machine log
      (after.reports.toList.map .tell ++ (event?.toList.map .ask ++ actions)) result := by
  intro σ τ μ _ _ host world play hgoes t
  rw [run, h, Action.playAll_append]
  simp only
  rw [StateT.run_bind, tellAll, hgoes.tellAll]
  cases event? with
  | none =>
    simp only [bind_assoc, pure_bind, hplays host world play hgoes]
    rfl
  | some event =>
    simp only [bind_assoc, pure_bind, StateT.run_bind, hgoes.perform,
      hplays host world play hgoes]
    simp [Action.playAll]

/-- **A run does not depend on the host** as long as this goes on. -/
theorem exists_plays (n : Nat) : ∀ (machine : Machine) (log : Array Report),
    ∃ (actions : List Action) (result : Outcome × Machine × Array Report),
      Plays n machine log actions result := by
  induction n with
  | zero => exact fun machine log => ⟨_, _, plays_zero machine log⟩
  | succ n ih =>
    intro machine log
    cases hnext : machine.next? with
    | none => exact ⟨_, _, plays_none hnext n log⟩
    | some next =>
      obtain ⟨actions, result, hplays⟩ := ih next.2 (log ++ next.2.reports)
      exact ⟨_, _, hplays.step hnext⟩

end Machine
end Script

namespace Session

variable {s : Session} {source : String} {outcome : Outcome} {tokens : List Script.Token}

/-- Executing the script takes these actions, and ends like this: whatever the host's world is, it
takes part in the actions one after the other, unless it gives a reason to stop. -/
def Plays (s : Session) (steps : Nat) (source : String) (actions : List Action) (outcome : Outcome)
    (after : Session) : Prop :=
  ∀ ⦃σ τ : Type⦄ ⦃μ : Type → Type⦄ [Monad μ] [LawfulMonad μ] (host : Host (StateT σ μ))
    (world : τ → σ) (play : Action → τ → μ τ), host.GoesOn world play → ∀ t,
    (s.execute host steps source).run (world t) = do
      return ((outcome, after), world (← Action.playAll play actions t))

/-- A host that never gives a reason to stop is behind the actions when the script has been
executed. -/
theorem Plays.run_eq {steps : Nat} {actions : List Action} {after : Session} {σ : Type}
    {host : Host (StateM σ)} (hplays : s.Plays steps source actions outcome after)
    (h : ∀ event world, ((host.perform event).run world).1 = none) (world : σ) :
    (s.execute host steps source).run world =
      ((outcome, after), actions.foldl host.react world) := by
  have hall : (actions.foldlM (fun t action => (pure (host.react t action) : Id σ)) world) =
      pure (actions.foldl host.react world) :=
    List.foldlM_pure
  have hrun := hplays host id _ (Script.Host.goesOn_of_forall h) world
  exact hrun.trans (congrArg (Prod.mk (outcome, after)) hall)

theorem Refuses.plays {log : Log} (h : s.Refuses source outcome log) (steps : Nat) :
    ∃ actions, s.Plays steps source actions outcome { s with log } := by
  obtain ⟨reports, hexecute⟩ := h
  refine ⟨reports.map .tell, fun σ τ μ _ _ host world play hgoes t => ?_⟩
  rw [hexecute host steps, StateT.run_bind, hgoes.tellAll]
  simp only [bind_assoc, pure_bind]
  rfl

/-- What is reported before the first command of a script is run. -/
def readout (s : Session) (source : String) (script : Script) : List Report :=
  (s.read source).1 ++ [.running script.queue.size]

/-- A script that is not refused is read and then run, and all that is reported is logged. -/
theorem execute_runs {m : Type → Type} [Monad m] [LawfulMonad m]
    (hok : Script.tokens source = .ok tokens) (h : ¬ s.Rejects source) (host : Host m)
    (steps : Nat) : s.execute host steps source = do
      let script := (Script.ofTokens s.bindings.names tokens).1
      (s.readout source script).forM host.tell
      let (outcome, machine, reports) ←
        Script.Machine.run host steps { script, heap := s.heap } #[]
      return (outcome, { s with
        heap := machine.heap
        log := s.log.addReports s.catalog (s.readout source script ++ reports.toList) }) := by
  rw [execute_of_not_rejects hok h]
  simp [tell, run, addReports, Log.addReports, readout, List.forM_append]

/-- A script that is not refused does what its run does. -/
theorem plays_of_machine {steps : Nat} {actions : List Action}
    {result : Outcome × Script.Machine × Array Report}
    (hok : Script.tokens source = .ok tokens) (h : ¬ s.Rejects source)
    (hplays : Script.Machine.Plays steps
      { script := (Script.ofTokens s.bindings.names tokens).1, heap := s.heap } #[]
      actions result) :
    let reports := s.readout source (Script.ofTokens s.bindings.names tokens).1
    s.Plays steps source (reports.map .tell ++ actions) result.1 { s with
      heap := result.2.1.heap
      log := s.log.addReports s.catalog (reports ++ result.2.2.toList) } := by
  intro reports σ τ μ _ _ host world play hgoes t
  rw [execute_runs hok h, Action.playAll_append, StateT.run_bind, hgoes.tellAll]
  simp only [bind_assoc, pure_bind, StateT.run_bind, hplays host world play hgoes]
  rfl

/-- **All hosts see the same run.** -/
theorem exists_plays (s : Session) (steps : Nat) (source : String) :
    ∃ (actions : List Action) (outcome : Outcome) (after : Session),
      s.Plays steps source actions outcome after := by
  cases hread : Script.tokens source with
  | error e =>
    obtain ⟨actions, hplays⟩ := (refuses_malformed hread).plays steps
    exact ⟨actions, _, _, hplays⟩
  | ok tokens =>
    by_cases hrejects : s.Rejects source
    · obtain ⟨actions, hplays⟩ := (refuses_rejected hrejects).plays steps
      exact ⟨actions, _, _, hplays⟩
    · obtain ⟨actions, result, hplays⟩ := Script.Machine.exists_plays steps
        { script := (Script.ofTokens s.bindings.names tokens).1, heap := s.heap } #[]
      exact ⟨_, _, _, plays_of_machine hread hrejects hplays⟩

end Session
end NovelScript
