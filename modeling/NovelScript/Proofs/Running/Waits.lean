import NovelScript.Proofs.Conditionals.Validation
import NovelScript.Proofs.Running.Asking
import NovelScript.Proofs.Running.Resumption

/-!
The times of pauses. A script may be run, stopped, taken up again and run from anywhere, with other
variables each time; what its commands have looked up stays with them. Main statement: the time of a
pause is looked up until it is found, and never again, so that all pauses of one command take the
same time; an execution of the command is one pause, or one error.
-/

namespace NovelScript

namespace Script

namespace Machine

variable {machine after : Machine} {k : CommandId} {time : WaitTime} {name : String} {v : Int32}
  {event? : Option Event}

/-! ### One execution -/

/-- The next step is a pause of `v`: it asks for nothing else and reports nothing, and behind it the
time is known. -/
def Pauses (machine : Machine) (name : String) (v : Int32) : Prop :=
  ∃ after, machine.next? = some (some (.wait v), after) ∧ after.reports = #[] ∧
    after.script.queue.get? machine.cursor = some (.waitTime ⟨name, some v⟩)

/-- The next step misses its pause, since the variable is no number: it asks for nothing and reports
one error, and behind it the time is still not known. -/
def Misses (machine : Machine) (name : String) : Prop :=
  (∀ v, machine.heap.lookup? name Expr.Heap.root ≠ some (.integer v)) ∧
    ∃ after report, machine.next? = some (none, after) ∧ after.reports = #[report] ∧
      report.isError = true ∧
      after.script.queue.get? machine.cursor = some (.waitTime (.named name))

theorem Pauses.get?_after (h : machine.Pauses name v)
    (hnext : machine.next? = some (event?, after)) :
    after.script.queue.get? machine.cursor = some (.waitTime ⟨name, some v⟩) := by
  obtain ⟨after', hnext', -, hget⟩ := h
  obtain ⟨-, rfl⟩ := Prod.mk.inj (Option.some.inj (hnext.symm.trans hnext'))
  exact hget

theorem Misses.get?_after (h : machine.Misses name) (hnext : machine.next? = some (event?, after)) :
    after.script.queue.get? machine.cursor = some (.waitTime (.named name)) := by
  obtain ⟨-, after', report, hnext', -, -, hget⟩ := h
  obtain ⟨-, rfl⟩ := Prod.mk.inj (Option.some.inj (hnext.symm.trans hnext'))
  exact hget

/-- A step leaves all commands alone but its own. -/
theorem get?_next?_of_ne (h : machine.next? = some (event?, after)) (hk : k ≠ machine.cursor) :
    after.script.queue.get? k = machine.script.queue.get? k := by
  obtain ⟨c, hc, -, rfl⟩ := exists_of_next? h
  have hcommands : (((machine.told.execute machine.cursor c).2.moveTo (machine.cursor + 1)).follow
      (machine.told.execute machine.cursor c).1).script.queue.commands =
        (machine.told.execute machine.cursor c).2.script.queue.commands := commands_move _ _
  rw [Queue.get?, hcommands]
  rcases script_execute machine.cursor c machine.told with hsame | ⟨time, time', -, hnew⟩
  · rw [hsame]
    rfl
  · rw [hnew]
    exact Array.getElem?_setIfInBounds_ne hk.symm

/-- The step of a pause looks for its time, unless it is known. -/
theorem next?_waitTime (hc : machine.script.queue.get? machine.cursor = some (.waitTime time)) :
    ∃ after, machine.next? = some
        ((machine.told.execute machine.cursor (.waitTime time)).1.event?, after) ∧
      after.reports = (machine.told.execute machine.cursor (.waitTime time)).2.reports ∧
      after.script.queue.get? machine.cursor =
        some (.waitTime (time.resolve (findTime machine.heap)).2) := by
  refine ⟨_, next?_moveTo hc, rfl, ?_⟩
  have hlt : machine.cursor < machine.script.queue.commands.size :=
    (Array.getElem?_eq_some_iff.mp hc).1
  rw [Queue.get?]
  refine (congrArg (·[machine.cursor]?) (commands_move _ _)).trans ?_
  simp only [moveTo, execute, wait]
  split <;> exact Array.getElem?_setIfInBounds_self_of_lt hlt

theorem pauses_of_resolve (hc : machine.script.queue.get? machine.cursor = some (.waitTime time))
    (h : time.resolve (findTime machine.heap) = (.ok v, ⟨name, some v⟩)) :
    machine.Pauses name v := by
  obtain ⟨after, hnext, hreports, hget⟩ := next?_waitTime hc
  have hfound : time.resolve (findTime machine.told.heap) = (.ok v, ⟨name, some v⟩) := h
  simp only [execute, wait, hfound] at hnext hreports
  rw [h] at hget
  exact ⟨after, hnext, hreports, hget⟩

/-- A time that is known is not looked up. -/
theorem pauses_of_known
    (hc : machine.script.queue.get? machine.cursor = some (.waitTime ⟨name, some v⟩)) :
    machine.Pauses name v :=
  pauses_of_resolve hc rfl

theorem pauses_of_found
    (hc : machine.script.queue.get? machine.cursor = some (.waitTime (.named name)))
    (h : machine.heap.lookup? name Expr.Heap.root = some (.integer v)) : machine.Pauses name v := by
  refine pauses_of_resolve hc ?_
  simp [WaitTime.resolve, WaitTime.named, findTime, h]

theorem misses_of_not_found
    (hc : machine.script.queue.get? machine.cursor = some (.waitTime (.named name)))
    (h : ∀ v, machine.heap.lookup? name Expr.Heap.root ≠ some (.integer v)) :
    machine.Misses name := by
  obtain ⟨finding, hseverity, hfinding⟩ : ∃ finding : Finding, finding.severity = .error ∧
      findTime machine.heap name = .error finding := by
    unfold findTime
    split
    · rename_i v hv
      exact absurd hv (h v)
    · exact ⟨_, rfl, rfl⟩
    · exact ⟨_, rfl, rfl⟩
  obtain ⟨after, hnext, hreports, hget⟩ := next?_waitTime hc
  have hfinding' : findTime machine.told.heap name = .error finding := hfinding
  simp only [execute, wait, WaitTime.resolve, WaitTime.named, hfinding'] at hnext hreports
  simp only [WaitTime.resolve, WaitTime.named, hfinding] at hget
  exact ⟨h, after, _, hnext, hreports, by simp [Report.isError, hseverity], hget⟩

/-- The times that are known to the first are known to the other, and are the same. -/
def KeepsTimes (machine later : Machine) : Prop :=
  ∀ k name v, machine.script.queue.get? k = some (.waitTime ⟨name, some v⟩) →
    later.script.queue.get? k = some (.waitTime ⟨name, some v⟩)

theorem keepsTimes_of_next? (h : machine.next? = some (event?, after)) :
    machine.KeepsTimes after := by
  intro k name v hc
  by_cases hk : k = machine.cursor
  · subst hk
    exact (pauses_of_known hc).get?_after h
  · rw [get?_next?_of_ne h hk]
    exact hc

end Machine

/-! ### All executions of a pause -/

/-- The executions of a pause, in their order, and its time behind them. A number is the time of all
of them. A variable is missed until it is a number, which is the time from then on. -/
inductive Executions : WaitTime → List Machine → WaitTime → Prop
  | literal {ms : List Machine} {v : Int32} :
      (∀ m ∈ ms, m.Pauses "" v) → Executions (.literal v) ms (.literal v)
  | unknown {ms : List Machine} {name : String} :
      (∀ m ∈ ms, m.Misses name) → Executions (.named name) ms (.named name)
  | found {missed rest : List Machine} {first : Machine} {name : String} {v : Int32} :
      (∀ m ∈ missed, m.Misses name) →
      first.heap.lookup? name Expr.Heap.root = some (.integer v) →
      (∀ m ∈ first :: rest, m.Pauses name v) →
        Executions (.named name) (missed ++ first :: rest) ⟨name, some v⟩

/-- What has happened to a script, in any number of runs: the machines whose steps were taken, and
the one that is left. Between two steps the cursor may have been moved, and the variables set. -/
inductive History (script : Script) : List Machine → Machine → Prop
  | start (heap : Expr.Heap) : History script [] { script, heap }
  | step {ms : List Machine} {m after : Machine} {event? : Option Event} :
      History script ms m → m.next? = some (event?, after) → History script (ms ++ [m]) after
  | between {ms : List Machine} {m : Machine} (heap : Expr.Heap) (cursor : CommandId) :
      History script ms m →
        History script ms
          { script := { m.script with queue := { m.script.queue with cursor } }, heap }

section

variable {script : Script} {ms : List Machine} {m after : Machine} {k : CommandId}
  {time time' : WaitTime} {event? : Option Event}

theorem executions_nil (h : time.isNew = true) : Executions time [] time := by
  obtain ⟨name, value⟩ := time
  cases value with
  | none => exact .unknown (by simp)
  | some v =>
    obtain rfl : name = "" := by simpa [WaitTime.isNew] using h
    exact .literal (by simp)

/-- **One execution** more, of a time as the earlier ones have left it. -/
theorem Executions.step (h : Executions time ms time')
    (hc : m.script.queue.get? m.cursor = some (.waitTime time'))
    (hnext : m.next? = some (event?, after)) :
    ∃ time'', Executions time (ms ++ [m]) time'' ∧
      after.script.queue.get? m.cursor = some (.waitTime time'') := by
  have hmore : ∀ {p : Machine → Prop} {ms : List Machine}, (∀ x ∈ ms, p x) → p m →
      ∀ x ∈ ms ++ [m], p x :=
    fun hms hm => List.forall_mem_append.mpr ⟨hms, List.forall_mem_singleton.mpr hm⟩
  cases h with
  | literal hms =>
    have hpause := Machine.pauses_of_known hc
    exact ⟨_, .literal (hmore hms hpause), hpause.get?_after hnext⟩
  | @unknown _ name hms =>
    by_cases hfound : ∃ v, m.heap.lookup? name Expr.Heap.root = some (.integer v)
    · obtain ⟨v, hv⟩ := hfound
      have hpause := Machine.pauses_of_found hc hv
      exact ⟨_, .found hms hv (by simpa using hpause), hpause.get?_after hnext⟩
    · have hmiss := Machine.misses_of_not_found hc fun v hv => hfound ⟨v, hv⟩
      exact ⟨_, .unknown (hmore hms hmiss), hmiss.get?_after hnext⟩
  | @found missed rest first name v hmissed hv hms =>
    have hpause := Machine.pauses_of_known hc
    refine ⟨⟨name, some v⟩, ?_, hpause.get?_after hnext⟩
    rw [List.append_assoc, List.cons_append]
    exact .found hmissed hv (hmore hms hpause)

/-- **A whole history** of a command that is a pause at first. -/
theorem History.executions (h : script.History ms m)
    (hc : script.queue.get? k = some (.waitTime time)) (hnew : time.isNew = true) :
    ∃ time', Executions time (ms.filter (·.cursor = k)) time' ∧
      m.script.queue.get? k = some (.waitTime time') := by
  induction h with
  | start heap => exact ⟨time, executions_nil hnew, hc⟩
  | @step ms m after event? _ hnext ih =>
    obtain ⟨time', hms, hm⟩ := ih
    rw [List.filter_append]
    by_cases hk : m.cursor = k
    · subst hk
      simpa using hms.step hm hnext
    · refine ⟨time', by simpa [hk] using hms, ?_⟩
      rw [Machine.get?_next?_of_ne hnext (Ne.symm hk)]
      exact hm
  | between heap cursor _ ih => exact ih

/-- What has been looked up stays. -/
theorem History.keepsTimes (h : script.History ms m) :
    (ms ++ [m]).Pairwise Machine.KeepsTimes := by
  induction h with
  | start heap => exact List.pairwise_singleton _ _
  | @step ms m after event? _ hnext ih =>
    refine List.pairwise_append.mpr ⟨ih, List.pairwise_singleton _ _, fun x hx y hy => ?_⟩
    obtain rfl := List.mem_singleton.mp hy
    have hlast := Machine.keepsTimes_of_next? hnext
    rcases List.mem_append.mp hx with hold | hnew
    · have hm := (List.pairwise_append.mp ih).2.2 x hold m List.mem_cons_self
      exact fun k name v hc => hlast k name v (hm k name v hc)
    · exact List.mem_singleton.mp hnew ▸ hlast
  | @between ms m heap cursor _ ih =>
    obtain ⟨hms, -, hm⟩ := List.pairwise_append.mp ih
    refine List.pairwise_append.mpr ⟨hms, List.pairwise_singleton _ _, fun x hx y hy => ?_⟩
    obtain rfl := List.mem_singleton.mp hy
    exact hm x hx m List.mem_cons_self

/-- All machines have the same commands, up to the times of pauses. -/
theorem History.agrees (h : script.History ms m) :
    ∀ x ∈ ms ++ [m], script.queue.Agrees x.script.queue script.queue.size := by
  induction h with
  | start heap => simpa using Queue.Agrees.refl _ _
  | @step ms m after event? _ hnext ih =>
    have hm := (List.forall_mem_append.mp ih).2 m List.mem_cons_self
    have hafter := hm.trans (hm.size ▸ (Machine.next?_leads hnext).1)
    exact List.forall_mem_append.mpr ⟨ih, List.forall_mem_singleton.mpr hafter⟩
  | @between ms m heap cursor _ ih =>
    obtain ⟨hms, hm⟩ := List.forall_mem_append.mp ih
    refine List.forall_mem_append.mpr ⟨hms, List.forall_mem_singleton.mpr ?_⟩
    exact (List.forall_mem_singleton.mp hm).of_commands rfl

/-- Only a pause asks for one. -/
theorem History.exists_waitTime {x : Machine} {v : Int32} (h : script.History ms m) (hx : x ∈ ms)
    (hasked : x.asked? = some (.wait v)) :
    ∃ time, script.queue.get? x.cursor = some (.waitTime time) := by
  obtain ⟨c, hc, hasks⟩ := Machine.exists_of_asked? hasked
  obtain ⟨time, rfl⟩ : ∃ time, c = .waitTime time := by
    cases c <;> simp_all [Command.asks]
  rcases (h.agrees x (List.mem_append_left _ hx)).waits x.cursor with hsame | ⟨time', _, htime', -⟩
  · exact ⟨time, hsame.symm.trans hc⟩
  · exact ⟨time', htime'⟩

/-! ### Runs -/

variable {σ : Type} {host : Host (StateM σ)} {events : σ → List Event}

theorem History.takes {taken : List Machine} {last : Machine} (h : m.Takes taken last) :
    ∀ {ms : List Machine}, script.History ms m → script.History (ms ++ taken) last := by
  induction h with
  | refl machine => exact fun h => (List.append_nil _).symm ▸ h
  | step hnext _ ih =>
    intro ms h
    simpa using ih (h.step hnext)

/-- **A run of a session goes on with a history**, from any command on and with any variables,
however soon it is stopped. -/
theorem History.session_run (h : script.History ms m) (hkeeps : host.Keeps events) (s : Session)
    (cursor n : Nat) (world : σ) :
    let resumed := { m.script with queue := { m.script.queue with cursor } }
    let result := (s.run host n resumed).run world
    ∃ more last, script.History (ms ++ more) last ∧ last.script = result.1.2.1 ∧
      last.heap = result.1.2.2.heap ∧
      events result.2 = events world ++ more.filterMap Machine.asked? ∧
      result.1.2.2.log.entries =
        s.log.entries ++ entriesOf s.catalog (more.flatMap Machine.reported) := by
  intro resumed result
  let told := ((host.tell (.running resumed.queue.size)).run world).2
  obtain ⟨more, htaken, hevents, hentries, -⟩ :=
    hkeeps.run n { script := resumed, heap := s.heap } #[] told
  refine ⟨more, _, History.takes htaken (h.between s.heap cursor), rfl, rfl, ?_, ?_⟩
  · rw [← hkeeps.tell (.running resumed.queue.size) world]
    exact hevents
  · -- the line that a run begins with is no entry
    have hrunning : (s.addReports [.running resumed.queue.size]).log.entries = s.log.entries :=
      (Log.entries_addReports ..).trans (List.append_nil _)
    rw [← hrunning]
    exact (Log.entries_addReports ..).trans (congrArg (_ ++ ·) (hentries s.catalog))

end

/-! ### Scripts that have been read -/

namespace Builder

/-- No time has been looked up. -/
def Unresolved (b : Builder) : Prop :=
  ∀ time, .waitTime time ∈ b.script.queue.commands → time.isNew = true

variable {b b' : Builder}

theorem Unresolved.add (h : b.Unresolved) {c : Command}
    (hc : ∀ time, c = .waitTime time → time.isNew = true) (place : Position) :
    (b.add c place).Unresolved := by
  intro time htime
  rcases Array.mem_push.mp htime with hold | hadded
  · exact h time hold
  · exact hc time hadded.symm

theorem Unresolved.advance (h : b.Unresolved) (hadvance : Advance b b') : b'.Unresolved := by
  cases hadvance with
  | move hmove =>
    cases hmove with
    | tag htag =>
      cases htag with
      | add c place hordinary hc hparses =>
        refine h.add ?_ place
        rintro time rfl
        exact hordinary
      | _ => exact h
    | text text textStart => exact h
    | addText text place => exact h.add (by simp) place
    | addIndent count place hstart => exact h.add (by simp) place
  | @label name headline place => exact h.add (c := .label name headline) (by simp) place

end Builder

/-- Nothing is looked up while a script is read. -/
theorem isNew_ofTokens {declared : List String} {tokens : List Token} {k : CommandId}
    {time : WaitTime} (h : (ofTokens declared tokens).1.queue.get? k = some (.waitTime time)) :
    time.isNew = true := by
  have hread : (tokensRead declared tokens).Unresolved :=
    Builder.Advances.keep Builder.Unresolved.advance (by simp [Builder.Unresolved])
      (tokensRead_advances declared tokens)
  exact hread time (Array.mem_of_getElem? ((alike_tokensRead declared tokens).get?_eq h (by simp)))

/-- **The time of a pause is looked up once.** A script that has been read is run any number of
times, by whoever stops a run at any event, each time from any command on and with any variables;
what all runs have asked for and logged is what the steps of a history ask for and report. In every
history, a time that is known stays as it is. Only pauses ask for pauses, and all those of one
command take the same time: a number as it was read, or what the variable was when it was a number
for the first time. Each execution of such a command is one pause without a report, or no event and
one error, and then the time is still not known. -/
theorem waits_resolve_once (declared : List String) (tokens : List Token) :
    let script := (ofTokens declared tokens).1
    ∀ ms m, script.History ms m →
      (∀ {σ : Type} (host : Host (StateM σ)) (events : σ → List Event), host.Keeps events →
        ∀ (s : Session) (cursor n : Nat) (world : σ),
          let result := (s.run host n
            { m.script with queue := { m.script.queue with cursor } }).run world
          ∃ more last, script.History (ms ++ more) last ∧ last.script = result.1.2.1 ∧
            last.heap = result.1.2.2.heap ∧
            events result.2 = events world ++ more.filterMap Machine.asked? ∧
            result.1.2.2.log.entries =
              s.log.entries ++ entriesOf s.catalog (more.flatMap Machine.reported)) ∧
      (ms ++ [m]).Pairwise Machine.KeepsTimes ∧
      (∀ x ∈ ms, ∀ v, x.asked? = some (.wait v) →
        ∃ time, script.queue.get? x.cursor = some (.waitTime time)) ∧
      ∀ k time, script.queue.get? k = some (.waitTime time) →
        ∃ time', Executions time (ms.filter (·.cursor = k)) time' ∧
          m.script.queue.get? k = some (.waitTime time') := by
  intro script ms m h
  exact ⟨fun host events hkeeps s cursor n world => h.session_run hkeeps s cursor n world,
    h.keepsTimes, fun x hx v hasked => h.exists_waitTime hx hasked,
    fun k time hc => h.executions hc (isNew_ofTokens hc)⟩

/-- The script waits for a variable. It is run from there on while the variable is not set, and then
from the beginning. -/
theorem waits_resolve_once_waitThenChange :
    let script := (ofTokens [] waitThenChange).1
    ∃ ms m, script.History ms m ∧
      ms.filterMap Machine.asked? = [.text "a", .wait 5, .text "a", .text "7", .newLine] ∧
      Executions (.named "t") (ms.filter (·.cursor = 1)) ⟨"t", some 5⟩ := by
  intro script
  let first := (Session.run Host.recorder 2
    { script with queue := { script.queue with cursor := 1 } } {}).run []
  let second := (Session.run Host.recorder 9
    { first.1.2.1 with queue := { first.1.2.1.queue with cursor := 0 } } {}).run []
  have hfirst : first.2 = [.text "a"] := by decide +kernel
  have hsecond : second.2 = [.wait 5, .text "a", .text "7", .newLine] := by decide +kernel
  have hbefore : script.queue.get? 1 = some (.waitTime (.named "t")) := by decide +kernel
  have hafter : second.1.2.1.queue.get? 1 = some (.waitTime ⟨"t", some 5⟩) := by decide +kernel
  obtain ⟨ms, m, h, hscript, -, hevents, -⟩ :=
    (waits_resolve_once [] waitThenChange _ _ (.start .single)).1 Host.recorder id
      records_recorder.keeps {} 1 2 []
  obtain ⟨more, last, h', hscript', -, hevents', -⟩ :=
    (waits_resolve_once [] waitThenChange _ _ h).1 Host.recorder id records_recorder.keeps {} 0 9 []
  rw [hscript] at hscript' hevents'
  obtain ⟨time, hexecutions, htime⟩ :=
    (waits_resolve_once [] waitThenChange _ _ h').2.2.2 1 _ hbefore
  obtain rfl : time = ⟨"t", some 5⟩ := by
    rw [hscript'] at htime
    exact Command.waitTime.inj (Option.some.inj (htime.symm.trans hafter))
  refine ⟨_, last, h', ?_, hexecutions⟩
  have hall : first.2 ++ second.2 = ([] ++ ms.filterMap Machine.asked?) ++
      ([] ++ more.filterMap Machine.asked?) := congrArg₂ (· ++ ·) hevents hevents'
  rw [hfirst, hsecond] at hall
  simpa [List.filterMap_append] using hall.symm

end Script
end NovelScript
