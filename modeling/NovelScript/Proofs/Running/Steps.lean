import NovelScript.Session

/-!
A run as steps. What a step does to the outside is a list of actions, which does not depend on who
watches; a host that never gives a reason to stop takes part in exactly these actions.
-/

namespace NovelScript.Script

/-- Something that a run does to the outside. -/
inductive Action
  | tell (report : Report)
  | ask (event : Event)
deriving DecidableEq

namespace Action

/-- The report that an action makes. -/
def report? : Action → Option Report
  | tell report => some report
  | ask _ => none

/-- The reports that actions make. -/
def reports (actions : List Action) : List Report := actions.filterMap report?

/-- The event that an action asks for. -/
def event? : Action → Option Event
  | tell _ => none
  | ask event => some event

@[simp] theorem reports_nil : reports [] = [] := rfl

@[simp] theorem reports_append (a b : List Action) : reports (a ++ b) = reports a ++ reports b :=
  List.filterMap_append ..

@[simp] theorem reports_map_tell (rs : List Report) : reports (rs.map tell) = rs := by
  simp [reports, List.filterMap_map, Function.comp_def, report?]

@[simp] theorem reports_map_ask (es : List Event) : reports (es.map ask) = [] := by
  simp [reports, List.filterMap_map, Function.comp_def, report?]

end Action

namespace Machine

/-- The machine when the reports of its last step have been told. -/
def told (machine : Machine) : Machine := { machine with reports := #[] }

/-- The actions of the next step, and the machine behind it. -/
def step? (machine : Machine) : Option (List Action × Machine) :=
  machine.next?.map fun (event?, after) =>
    (after.reports.toList.map .tell ++ event?.toList.map .ask, after.told)

/-- So many steps, and all their actions. -/
inductive Steps : Nat → Machine → List Action → Machine → Prop
  | refl (machine : Machine) : Steps 0 machine [] machine
  | step {n : Nat} {a b c : Machine} {now later : List Action} :
      a.step? = some (now, b) → Steps n b later c → Steps (n + 1) a (now ++ later) c

theorem Steps.single {a b : Machine} {now : List Action} (h : a.step? = some (now, b)) :
    Steps 1 a now b := by
  simpa using Steps.step h (.refl b)

theorem Steps.trans {n k : Nat} {a b c : Machine} {now later : List Action}
    (h : Steps n a now b) (h' : Steps k b later c) : Steps (n + k) a (now ++ later) c := by
  induction h with
  | refl machine => simpa using h'
  | @step n a b c now between hstep _ ih =>
    have hall := Steps.step hstep (ih h')
    rw [List.append_assoc, Nat.add_right_comm]
    exact hall

end Machine

/-! ### Hosts that never stop a run -/

variable {μ : Type → Type} [Monad μ]

/-- The host does what it is asked for, as `play` does, and never gives a reason to stop. -/
def Host.Obeys (host : Host μ) (play : Event → μ Unit) : Prop :=
  ∀ event, host.perform event = do play event; return none

/-- The host's part in an action. -/
def Host.act (host : Host μ) (play : Event → μ Unit) : Action → μ Unit
  | .tell report => host.tell report
  | .ask event => play event

/-- The host's part in actions, one after the other. -/
def Host.actAll (host : Host μ) (play : Event → μ Unit) (actions : List Action) : μ Unit :=
  actions.forM (host.act play)

namespace Machine

/-- The end of a run, when all reports have been told. -/
def ending (result : Outcome × Machine × Array Report) : Outcome × Machine × Array Report :=
  (result.1, result.2.1.told, result.2.2)

variable [LawfulMonad μ] {host : Host μ} {play : Event → μ Unit}

theorem actAll_append (a b : List Action) :
    host.actAll play (a ++ b) = (host.actAll play a >>= fun _ => host.actAll play b) := by
  simp [Host.actAll, List.forM_append]

theorem actAll_map_tell (reports : Array Report) :
    host.actAll play (reports.toList.map .tell) = tellAll host reports := by
  simp [Host.actAll, tellAll, List.forM_eq_forM, List.forM_map, Host.act]

/-- Reports that have been told make no difference to a run. -/
theorem run_told (host : Host μ) (k : Nat) (machine : Machine) (log : Array Report) :
    ending <$> run host (k + 1) machine.told log = ending <$> run host (k + 1) machine log := by
  have hnext : machine.told.next? = machine.next? := rfl
  rw [run, run, hnext]
  cases machine.next? with
  | none => simp [ending, told]
  | some next => rfl

/-- A run with a host that never stops it takes part in the next step, and goes on. -/
theorem run_step (hobeys : host.Obeys play) {a b : Machine} {now : List Action}
    (h : a.step? = some (now, b)) (k : Nat) (log : Array Report) :
    ending <$> run host (k + 2) a log = (host.actAll play now >>= fun _ =>
      ending <$> run host (k + 1) b (log ++ (Action.reports now).toArray)) := by
  obtain ⟨⟨event?, after⟩, hnext, hpair⟩ := Option.map_eq_some_iff.mp h
  obtain ⟨rfl, rfl⟩ := Prod.mk.inj hpair
  have hlog : Action.reports (after.reports.toList.map .tell ++ event?.toList.map .ask) =
      after.reports.toList := by
    rw [Action.reports_append, Action.reports_map_tell, Action.reports_map_ask, List.append_nil]
  rw [run, hnext]
  simp only
  rw [hlog, actAll_append, actAll_map_tell, run_told]
  cases event? with
  | none => simp [Host.actAll]
  | some event => simp [Host.actAll, Host.act, hobeys event]

/-- A run with a host that never stops it takes part in any number of steps, and goes on. -/
theorem run_steps (hobeys : host.Obeys play) {n : Nat} {a b : Machine} {actions : List Action}
    (h : Steps n a actions b) (k : Nat) : ∀ log : Array Report,
    ending <$> run host (n + (k + 1)) a log = (host.actAll play actions >>= fun _ =>
      ending <$> run host (k + 1) b (log ++ (Action.reports actions).toArray)) := by
  induction h with
  | refl machine => simp [Host.actAll]
  | @step n a b c now later hstep _ ih =>
    intro log
    have hfuel : n + 1 + (k + 1) = (n + k) + 2 := by omega
    rw [hfuel, run_step hobeys hstep, actAll_append]
    have hrest := ih (log ++ (Action.reports now).toArray)
    rw [show n + (k + 1) = n + k + 1 by omega] at hrest
    simp [hrest]

/-- A run that has nothing more to take ends. -/
theorem run_end (host : Host μ) (k : Nat) {machine : Machine} (h : machine.step? = none)
    (log : Array Report) :
    ending <$> run host (k + 1) machine log = (host.tell .finished >>= fun _ =>
      pure (.finished, machine.told, log.push .finished)) := by
  have hnext : machine.next? = none := Option.map_eq_none_iff.mp h
  rw [run, hnext]
  simp [ending]

end Machine

/-! ### Hosts with a world of their own -/

namespace Machine

variable {σ : Type} {machine after : Machine}

theorem run_none (host : Host (StateM σ)) (h : machine.next? = none) (n : Nat) (log : Array Report)
    (world : σ) : (run host (n + 1) machine log).run world =
      ((.finished, machine, log.push .finished), ((host.tell .finished).run world).2) := by
  rw [run, h]
  rfl

theorem run_quiet (host : Host (StateM σ)) (h : machine.next? = some (none, after)) (n : Nat)
    (log : Array Report) (world : σ) : (run host (n + 1) machine log).run world =
      (run host n after (log ++ after.reports)).run ((tellAll host after.reports).run world).2 := by
  rw [run, h]
  rfl

/-- The host is told the reports of a step before it is asked for anything. -/
theorem run_asking (host : Host (StateM σ)) {event : Event}
    (h : machine.next? = some (some event, after)) (n : Nat) (log : Array Report) (world : σ) :
    (run host (n + 1) machine log).run world =
      let answer := (host.perform event).run ((tellAll host after.reports).run world).2
      match answer.1 with
      | none => (run host n after (log ++ after.reports)).run answer.2
      | some reason => ((.interrupted reason, after, log ++ after.reports), answer.2) := by
  rw [run, h]
  show (match ((host.perform event).run ((tellAll host after.reports).run world).2).1 with
    | none => run host n after (log ++ after.reports)
    | some reason => pure (.interrupted reason, after, log ++ after.reports) :
      StateM σ (Outcome × Machine × Array Report)).run _ = _
  simp only
  cases ((host.perform event).run ((tellAll host after.reports).run world).2).1 <;> rfl

end Machine
end NovelScript.Script
