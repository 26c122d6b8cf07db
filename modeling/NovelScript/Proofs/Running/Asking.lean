import NovelScript.Proofs.Reading.Refusal
import NovelScript.Proofs.Running.Structured
import NovelScript.Proofs.Running.Visits

/-!
What a run asks of its host. A step asks for at most one thing, which its command tells; a host that
keeps what it is asked for has kept, when a run ends, what the steps of the run ask for, one after
the other, and the log has got what they report.
-/

namespace NovelScript

namespace Script

variable {σ : Type} {machine after : Machine} {n : Nat} {event? : Option Event} {event : Event}

/-! ### Steps -/

/-- What the next step asks of the host. -/
def Machine.asked? (machine : Machine) : Option Event := machine.next?.bind Prod.fst

theorem Machine.asked?_of_next? (h : machine.next? = some (event?, after)) :
    machine.asked? = event? := by
  rw [asked?, h, Option.bind_some]

/-- What the next step reports. -/
def Machine.reported (machine : Machine) : List Report :=
  machine.next?.elim [] fun (_, after) => after.reports.toList

theorem Machine.reported_of_next? (h : machine.next? = some (event?, after)) :
    machine.reported = after.reports.toList := by
  rw [reported, h, Option.elim_some]

/-- Steps one behind the other, from each of the machines listed, and the machine that is left. -/
inductive Machine.Takes : Machine → List Machine → Machine → Prop
  | refl (machine : Machine) : Takes machine [] machine
  | step {a b c : Machine} {event? : Option Event} {taken : List Machine} :
      a.next? = some (event?, b) → Takes b taken c → Takes a (a :: taken) c

/-- Whether the command may ask for the event. -/
def Command.asks : Command → Event → Bool
  | printText text, .text shown => text = shown
  | embed _, .text _ | newLine, .newLine | waitKey, .waitKey | newPage, .newPage => true
  | waitTime _, .wait _ => true
  | indent count, .indent steps => count = steps
  | font f, .font shown => f = shown
  | _, _ => false

/-- A command asks for nothing else than it may ask for. -/
theorem Machine.asks_of_execute {k : CommandId} {c : Command}
    (h : (machine.execute k c).1.event? = some event) : c.asks event = true := by
  unfold execute at h
  cases c with
  | waitTime time =>
    simp only [wait] at h
    split at h
    · obtain rfl := Option.some.inj h
      rfl
    · cases h
  | «if» condition related =>
    simp only at h
    split at h
    · cases h
    · rcases branch_effect related (machine.condition condition (machine.script.position? k)).2 with
        heffect | ⟨_, -, heffect⟩ <;> rw [heffect] at h <;> cases h
  | embed source =>
    simp only at h
    split at h
    · obtain rfl := Option.some.inj h
      rfl
    · cases h
  | jump _ | elif _ | «else» =>
    simp only at h
    split at h <;> cases h
  | define _ | eval _ | label _ _ | endIf => cases h
  | _ =>
    obtain rfl := Option.some.inj h
    simp [Command.asks]

/-- What a step asks for, its command may ask for. -/
theorem Machine.exists_of_asked? (h : machine.asked? = some event) :
    ∃ c, machine.script.queue.get? machine.cursor = some c ∧ c.asks event = true := by
  obtain ⟨⟨event?, after⟩, hnext, rfl⟩ := Option.bind_eq_some_iff.mp h
  obtain ⟨c, hc, hevent, -⟩ := exists_of_next? hnext
  exact ⟨c, hc, asks_of_execute hevent.symm⟩

/-! ### Hosts that keep what they are asked for -/

/-- The host keeps the events that it is asked for, whatever else it does; it may stop a run at any
of them. -/
structure Host.Keeps (host : Host (StateM σ)) (events : σ → List Event) : Prop where
  perform : ∀ event world,
    events ((host.perform event).run world).2 = events world ++ [event]
  tell : ∀ report world, events ((host.tell report).run world).2 = events world

/-- The host never gives a reason to stop, and keeps the events that it is asked for, whatever else
it does. -/
structure Host.Records (host : Host (StateM σ)) (events : σ → List Event) : Prop where
  goesOn : ∀ event world, ((host.perform event).run world).1 = none
  perform : ∀ event world,
    events ((host.perform event).run world).2 = events world ++ [event]
  tell : ∀ report world, events ((host.tell report).run world).2 = events world

/-- The entries of the log that reports are. -/
def entriesOf (catalog : Catalog) (reports : List Report) : List Entry :=
  reports.filterMap fun r => Record.entry? (r.record catalog)

theorem entriesOf_append (catalog : Catalog) (reports more : List Report) :
    entriesOf catalog (reports ++ more) = entriesOf catalog reports ++ entriesOf catalog more :=
  List.filterMap_append

variable {host : Host (StateM σ)} {events : σ → List Event}

theorem Host.Keeps.tellAll (h : host.Keeps events) (reports : List Report) : ∀ world,
    events ((reports.forM host.tell).run world).2 = events world := by
  induction reports with
  | nil => exact fun _ => rfl
  | cons report reports ih => exact fun world => (ih _).trans (h.tell report world)

/-- **A run takes steps**, as many as it may unless the host stops it. It asks for what they ask for
and logs what they report, in their order. -/
theorem Host.Keeps.run (h : host.Keeps events) (n : Nat) :
    ∀ (machine : Machine) (log : Array Report) (world : σ),
      let result := (Machine.run host n machine log).run world
      ∃ taken, machine.Takes taken result.1.2.1 ∧
        events result.2 = events world ++ taken.filterMap Machine.asked? ∧
        (∀ catalog, entriesOf catalog result.1.2.2.toList =
          entriesOf catalog log.toList ++ entriesOf catalog (taken.flatMap Machine.reported)) ∧
        ((∀ event world, ((host.perform event).run world).1 = none) →
          taken = machine.visited n) := by
  induction n with
  | zero =>
    exact fun machine log world => ⟨[], .refl machine, (List.append_nil _).symm,
      fun _ => (List.append_nil _).symm, fun _ => rfl⟩
  | succ n ih =>
    intro machine log world
    cases hnext : machine.next? with
    | none =>
      rw [Machine.run_none host hnext]
      refine ⟨[], .refl machine, by simpa using h.tell _ _, fun catalog => ?_, fun _ => ?_⟩
      · simp [entriesOf, Report.record, Record.entry?]
      · rw [Machine.visited, hnext]
    | some next =>
      obtain ⟨event?, after⟩ := next
      have htold : events ((Machine.tellAll host after.reports).run world).2 = events world :=
        h.tellAll after.reports.toList world
      have hreported := Machine.reported_of_next? hnext
      have hvisited := Machine.visited_succ hnext n
      cases event? with
      | none =>
        rw [Machine.run_quiet host hnext]
        obtain ⟨taken, htaken, hevents, hentries, hall⟩ := ih after (log ++ after.reports)
          ((Machine.tellAll host after.reports).run world).2
        refine ⟨machine :: taken, .step hnext htaken, ?_, fun catalog => ?_, fun hgoes => ?_⟩
        · rw [hevents, List.filterMap_cons_none (Machine.asked?_of_next? hnext), htold]
        · rw [hentries, List.flatMap_cons, hreported]
          simp [entriesOf_append]
        · rw [hvisited, hall hgoes]
      | some event =>
        rw [Machine.run_asking host hnext]
        simp only
        have hperform := h.perform event ((Machine.tellAll host after.reports).run world).2
        rw [htold] at hperform
        split
        · obtain ⟨taken, htaken, hevents, hentries, hall⟩ := ih after (log ++ after.reports)
            ((host.perform event).run ((Machine.tellAll host after.reports).run world).2).2
          refine ⟨machine :: taken, .step hnext htaken, ?_, fun catalog => ?_, fun hgoes => ?_⟩
          · rw [hevents, hperform, List.filterMap_cons_some (Machine.asked?_of_next? hnext)]
            simp
          · rw [hentries, List.flatMap_cons, hreported]
            simp [entriesOf_append]
          · rw [hvisited, hall hgoes]
        · -- the host has stopped the run
          rename_i reason hstop
          refine ⟨[machine], .step hnext (.refl after), ?_, fun catalog => ?_, fun hgoes => ?_⟩
          · rw [hperform, List.filterMap_cons_some (Machine.asked?_of_next? hnext),
              List.filterMap_nil]
          · simp [hreported, entriesOf_append]
          · rw [hgoes] at hstop
            cases hstop

namespace Host.Records

theorem keeps (h : host.Records events) : host.Keeps events := ⟨h.perform, h.tell⟩

/-- A run that is never stopped asks for what its steps ask for, in their order. -/
theorem run (h : host.Records events) (n : Nat) (machine : Machine) (log : Array Report)
    (world : σ) : events ((Machine.run host n machine log).run world).2 =
      events world ++ (machine.visited n).filterMap Machine.asked? := by
  obtain ⟨taken, -, hevents, -, hall⟩ := h.keeps.run n machine log world
  rw [← hall h.goesOn]
  exact hevents

/-- So does a script that is executed, if it is not refused. -/
theorem execute {source : String} {s : Session} {tokens : List Token} (h : host.Records events)
    (hok : Script.tokens source = .ok tokens) (hruns : ¬ s.Rejects source) (n : Nat) (world : σ) :
    events ((s.execute host n source).run world).2 = events world ++
      (Machine.visited n ⟨(ofTokens s.bindings.names tokens).1, s.heap, #[]⟩).filterMap
        Machine.asked? := by
  rw [Session.execute_of_not_rejects hok hruns]
  refine (h.run n _ #[] _).trans (congrArg (· ++ _) ?_)
  exact (h.keeps.tellAll [_] _).trans (h.keeps.tellAll (s.read source).1 world)

end Host.Records

theorem records_recorder : Host.recorder.Records id :=
  ⟨fun _ _ => rfl, fun _ _ => rfl, fun _ _ => rfl⟩

end Script
end NovelScript
