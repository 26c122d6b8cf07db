import NovelScript.Proofs.Running.Structured

/-!
Interrupted runs. A host may stop a run at any event; the run can then be taken up again where it
was left. Main statement: nothing is lost and nothing is done twice, so that both runs together do
what one run does that is stopped later.
-/

namespace NovelScript.Script

/-- Shows nothing, keeps what it is asked for, and stops the run at the event with the number
`limit`. -/
def Host.limited (limit : Nat) (reason : String) : Host (StateM (List Event)) where
  perform event := do
    modify (· ++ [event])
    return if (← get).length = limit then some reason else none
  tell _ := return ()

namespace Machine

variable {limit n k : Nat} {reason : String} {machine after : Machine} {log : Array Report}
  {events : List Event}

/-! ### One step -/

theorem tellAll_limited (reports : Array Report) :
    ((tellAll (Host.limited limit reason) reports).run events).2 = events := by
  unfold tellAll
  induction reports.toList with
  | nil => rfl
  | cons r reports ih => exact ih

/-- A run that is stopped at the event with the number `limit`, when all its reports have been
told; `events` came before. -/
def limitedRun (limit : Nat) (reason : String) (k : Nat) (machine : Machine) (log : Array Report)
    (events : List Event) : (Outcome × Machine × Array Report) × List Event :=
  let result := (run (Host.limited limit reason) k machine log).run events
  (ending result.1, result.2)

theorem limitedRun_none (h : machine.next? = none) :
    limitedRun limit reason (k + 1) machine log events =
      ((.finished, machine.told, log.push .finished), events) := by
  rw [limitedRun, run_none _ h]
  rfl

theorem limitedRun_quiet (h : machine.next? = some (none, after)) :
    limitedRun limit reason (k + 1) machine log events =
      limitedRun limit reason k after (log ++ after.reports) events := by
  rw [limitedRun, run_quiet _ h, tellAll_limited, limitedRun]

theorem limitedRun_asking {event : Event} (h : machine.next? = some (some event, after)) :
    limitedRun limit reason (k + 1) machine log events =
      if events.length + 1 = limit then
        ((.interrupted reason, after.told, log ++ after.reports), events ++ [event])
      else limitedRun limit reason k after (log ++ after.reports) (events ++ [event]) := by
  have hanswer : ((Host.limited limit reason).perform event).run events =
      (if events.length + 1 = limit then some reason else none, events ++ [event]) := by
    show (if (events ++ [event]).length = limit then some reason else none, events ++ [event]) = _
    rw [List.length_append, List.length_singleton]
  rw [limitedRun, run_asking _ h, tellAll_limited, hanswer]
  split <;> simp [limitedRun, ending, *]

/-- Reports that have been told make no difference. -/
theorem limitedRun_told (k : Nat) : limitedRun limit reason k machine.told log events =
    limitedRun limit reason k machine log events := by
  have hnext : machine.told.next? = machine.next? := rfl
  cases k with
  | zero => rfl
  | succ k =>
    cases h : machine.next? with
    | none => rw [limitedRun_none h, limitedRun_none (hnext.trans h), told_told]
    | some next =>
      obtain ⟨_ | event, after⟩ := next
      · rw [limitedRun_quiet h, limitedRun_quiet (hnext.trans h)]
      · rw [limitedRun_asking h, limitedRun_asking (hnext.trans h)]

/-! ### Many steps -/

/-- More steps make no difference to a run that is over. -/
theorem limitedRun_add (d : Nat) (k : Nat) : ∀ {machine : Machine} {log : Array Report}
    {events : List Event}, (limitedRun limit reason k machine log events).1.1 ≠ .unfinished →
    limitedRun limit reason (k + d) machine log events =
      limitedRun limit reason k machine log events := by
  induction k with
  | zero => exact fun hover => absurd rfl hover
  | succ k ih =>
    intro machine log events hover
    rw [Nat.add_right_comm]
    cases h : machine.next? with
    | none => rw [limitedRun_none h, limitedRun_none h]
    | some next =>
      obtain ⟨_ | event, after⟩ := next
      · rw [limitedRun_quiet h] at hover
        rw [limitedRun_quiet h, limitedRun_quiet h, ih hover]
      · rw [limitedRun_asking h] at hover
        rw [limitedRun_asking h, limitedRun_asking h]
        split
        · rfl
        · rw [if_neg ‹_›] at hover
          exact ih hover

/-- What came before a run shifts its limit, and makes no other difference. -/
theorem limitedRun_behind (limit : Nat) (reason : String) (earlier : Array Report)
    {before : List Event} (hbefore : before.length = n) (k : Nat) :
    ∀ (machine : Machine) (log : Array Report) (events : List Event),
      limitedRun (n + limit) reason k machine (earlier ++ log) (before ++ events) =
      let rest := limitedRun limit reason k machine log events
      ((rest.1.1, rest.1.2.1, earlier ++ rest.1.2.2), before ++ rest.2) := by
  induction k with
  | zero => exact fun _ _ _ => rfl
  | succ k ih =>
    intro machine log events
    cases h : machine.next? with
    | none => simp [limitedRun_none h]
    | some next =>
      obtain ⟨_ | event, after⟩ := next
      · rw [limitedRun_quiet h, limitedRun_quiet h, Array.append_assoc]
        exact ih _ _ _
      · have hlimit : (before ++ events).length + 1 = n + limit ↔ events.length + 1 = limit := by
          rw [List.length_append, hbefore]
          omega
        rw [limitedRun_asking h, limitedRun_asking h, Array.append_assoc, List.append_assoc]
        by_cases hstop : events.length + 1 = limit
        · rw [if_pos (hlimit.mpr hstop), if_pos hstop]
        · rw [if_neg (mt hlimit.mp hstop), if_neg hstop]
          exact ih _ _ _

/-- **A run that is stopped at one event** is the first part of every run that is stopped at a
later one. -/
theorem limitedRun_of_interrupted {r : String} (k : Nat) :
    ∀ {machine : Machine} {log : Array Report} {events : List Event},
    (limitedRun n reason k machine log events).1.1 = .interrupted r →
    let first := limitedRun n reason k machine log events
    events.length < n ∧ first.2.length = n ∧ ∃ used ≤ k, ∀ limit, n < limit →
      ∀ (reason' : String) (more : Nat),
        limitedRun limit reason' (used + more) machine log events =
          limitedRun limit reason' more first.1.2.1 first.1.2.2 first.2 := by
  induction k with
  | zero => exact fun hstop => nomatch hstop
  | succ k ih =>
    intro machine log events hstop
    cases h : machine.next? with
    | none =>
      rw [limitedRun_none h] at hstop
      cases hstop
    | some next =>
      obtain ⟨_ | event, after⟩ := next
      · rw [limitedRun_quiet h] at hstop ⊢
        obtain ⟨hlt, hlength, used, hused, hrest⟩ := ih hstop
        refine ⟨hlt, hlength, used + 1, Nat.succ_le_succ hused, fun limit hlimit reason' more => ?_⟩
        rw [Nat.add_right_comm, limitedRun_quiet h]
        exact hrest limit hlimit reason' more
      · rw [limitedRun_asking h] at hstop ⊢
        by_cases hlast : events.length + 1 = n
        · -- the event at which the run stops is the last effect of its step
          rw [if_pos hlast]
          refine ⟨by omega, by simpa using hlast, 1, by omega, fun limit hlimit reason' more => ?_⟩
          rw [Nat.add_comm, limitedRun_asking h, if_neg (by omega), limitedRun_told]
        · rw [if_neg hlast] at hstop ⊢
          obtain ⟨hlt, hlength, used, hused, hrest⟩ := ih hstop
          rw [List.length_append, List.length_singleton] at hlt
          refine ⟨by omega, hlength, used + 1, Nat.succ_le_succ hused,
            fun limit hlimit reason' more => ?_⟩
          rw [Nat.add_right_comm, limitedRun_asking h, if_neg (by omega)]
          exact hrest limit hlimit reason' more

/-- Both parts of an interrupted run together are one run. -/
theorem limitedRun_resume {m a b c : Nat} (hm : 0 < m) (machine : Machine)
    {reason reason' r : String}
    (hfirst : (limitedRun n reason a machine #[] []).1.1 = .interrupted r) :
    let first := limitedRun n reason a machine #[] []
    let second := limitedRun m reason' b first.1.2.1 #[] []
    let single := limitedRun (n + m) reason' c machine #[] []
    second.1.1 ≠ .unfinished → a + b ≤ c ∨ single.1.1 ≠ .unfinished →
      single = ((second.1.1, second.1.2.1, first.1.2.2 ++ second.1.2.2), first.2 ++ second.2) := by
  intro first second single hsecond hsteps
  obtain ⟨-, hlength, used, hused, hrest⟩ := limitedRun_of_interrupted a hfirst
  -- with as many steps as both parts have had, the single run is over
  have hmany : ∀ c : Nat, a + b ≤ c → limitedRun (n + m) reason' c machine #[] [] =
      ((second.1.1, second.1.2.1, first.1.2.2 ++ second.1.2.2), first.2 ++ second.2) := by
    intro c hc
    obtain ⟨more, rfl⟩ : ∃ more, c = used + (b + more) := ⟨c - used - b, by omega⟩
    have hbehind : limitedRun (n + m) reason' (b + more) first.1.2.1 first.1.2.2 first.2 =
        let rest := limitedRun m reason' (b + more) first.1.2.1 #[] []
        ((rest.1.1, rest.1.2.1, first.1.2.2 ++ rest.1.2.2), first.2 ++ rest.2) := by
      have hshift := limitedRun_behind m reason' first.1.2.2 hlength (b + more) first.1.2.1 #[] []
      rwa [Array.append_empty, List.append_nil] at hshift
    rw [hrest (n + m) (by omega) reason' (b + more), hbehind, limitedRun_add more b hsecond]
  rcases hsteps with hc | hover
  · exact hmany c hc
  · rw [← hmany (c + (a + b)) (Nat.le_add_left _ _)]
    exact (limitedRun_add (a + b) c hover).symm

end Machine

/-! ### Sessions -/

/-- A session's run is a run of its machine, between two lines of the log. -/
theorem session_run_limited (limit : Nat) (reason : String) (k : Nat) (script : Script)
    (s : Session) (events : List Event) :
    (s.run (Host.limited limit reason) k script).run events =
      let result := Machine.limitedRun limit reason k { script, heap := s.heap } #[] events
      ((result.1.1, result.1.2.1.script, { s with
        heap := result.1.2.1.heap
        log := s.log.addReports s.catalog
          (.running script.queue.size :: result.1.2.2.toList) }), result.2) := by
  rw [Session.run_eq]
  rfl

/-- **Interrupting a run and taking it up again loses nothing and repeats nothing.** A host stops a
run at the event number `n`, and the run that goes on from there at the event number `m`, if it
comes so far. Whatever the script, the variables and the cursor, a single run that is stopped at
the event number `n + m` asks for the same events as both together, and leaves the same script, with
its cursor and the times of its pauses, the same variables and the same entries in the log. -/
theorem interrupted_run_resumes (script : Script) (s : Session) (n m : Nat) (hm : 0 < m)
    (reason reason' : String) (a b c : Nat) :
    let first := (s.run (Host.limited n reason) a script).run []
    let second := (first.1.2.2.run (Host.limited m reason') b first.1.2.1).run []
    let single := (s.run (Host.limited (n + m) reason') c script).run []
    first.1.1 = .interrupted reason → second.1.1 ≠ .unfinished →
      a + b ≤ c ∨ single.1.1 ≠ .unfinished →
      single.2 = first.2 ++ second.2 ∧ single.1.1 = second.1.1 ∧ single.1.2.1 = second.1.2.1 ∧
        single.1.2.2.heap = second.1.2.2.heap ∧
        single.1.2.2.log.entries = second.1.2.2.log.entries := by
  intro first second single hfirst hsecond hsteps
  let machine : Machine := { script, heap := s.heap }
  let firstRun := Machine.limitedRun n reason a machine #[] []
  let secondRun := Machine.limitedRun m reason' b firstRun.1.2.1 #[] []
  let between : Session := { s with
    heap := firstRun.1.2.1.heap
    log := s.log.addReports s.catalog (.running script.queue.size :: firstRun.1.2.2.toList) }
  have hfirstRun : first = ((firstRun.1.1, firstRun.1.2.1.script, between), firstRun.2) :=
    session_run_limited n reason a script s []
  have hsecondRun : second = ((secondRun.1.1, secondRun.1.2.1.script, { between with
      heap := secondRun.1.2.1.heap
      log := between.log.addReports s.catalog
        (.running firstRun.1.2.1.script.queue.size :: secondRun.1.2.2.toList) }), secondRun.2) := by
    show (first.1.2.2.run (Host.limited m reason') b first.1.2.1).run [] = _
    rw [hfirstRun]
    exact session_run_limited m reason' b firstRun.1.2.1.script between []
  have hsingleRun := session_run_limited (n + m) reason' c script s []
  have hsingle : single = _ := hsingleRun
  rw [hfirstRun] at hfirst
  rw [hsecondRun] at hsecond
  rw [hsingle] at hsteps
  have hall := Machine.limitedRun_resume hm machine hfirst hsecond hsteps
  rw [hsingle, hsecondRun, hfirstRun, hall]
  refine ⟨rfl, rfl, rfl, rfl, ?_⟩
  -- the line that a run begins with is no entry, so that taking the run up leaves no trace
  have hnote : ∀ commands, Record.entry? ((Report.running commands).record s.catalog) = none :=
    fun _ => rfl
  simp only [between, Log.entries_addReports, List.filterMap_cons, hnote, Array.toList_append,
    List.filterMap_append, List.append_assoc]
  rfl

/-- A script that waits for a variable, which it changes afterwards. -/
def waitThenChange : List Token :=
  let text (content : String) : Token := ⟨.text content, content, {}⟩
  [tagToken "var" [⟨"t", "5"⟩], tagToken "wait" [⟨"time", "t"⟩], text "a",
    tagToken "eval" [⟨"exp", "t = 7"⟩], tagToken "embed" [⟨"exp", "t"⟩], tagToken "r" []]

theorem interrupted_run_waitThenChange :
    let script := (ofTokens [] waitThenChange).1
    let first := (Session.run (Host.limited 1 "stop") 9 script {}).run []
    let second := (first.1.2.2.run (Host.limited 2 "stop") 9 first.1.2.1).run []
    let single := (Session.run (Host.limited 3 "stop") 18 script {}).run []
    first.1.1 = .interrupted "stop" ∧ first.2 = [.wait 5] ∧ second.1.1 ≠ .unfinished ∧
      second.2 = [.text "a", .text "7"] ∧ single.2 = first.2 ++ second.2 ∧
      single.1.2.1 = second.1.2.1 ∧ single.1.2.2.heap = second.1.2.2.heap ∧
      single.1.2.2.log.entries = second.1.2.2.log.entries := by
  intro script first second single
  have hfirst : first.1.1 = .interrupted "stop" := by decide +kernel
  have hevents : first.2 = [.wait 5] := by decide +kernel
  have hsecond : second.1.1 ≠ .unfinished := by decide +kernel
  have hevents' : second.2 = [.text "a", .text "7"] := by decide +kernel
  obtain ⟨hall, -, hscript, hheap, hentries⟩ := interrupted_run_resumes script {} 1 2 (by decide)
    "stop" "stop" 9 9 18 hfirst hsecond (.inl (Nat.le_refl 18))
  exact ⟨hfirst, hevents, hsecond, hevents', hall, hscript, hheap, hentries⟩

end NovelScript.Script
