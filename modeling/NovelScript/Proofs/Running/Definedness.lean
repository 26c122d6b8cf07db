import NovelScript.Proofs.Evaluation.Binding
import NovelScript.Proofs.Reading.Declared
import NovelScript.Proofs.Running.Hosts
import NovelScript.Proofs.Running.Indents
import NovelScript.Proofs.Running.Waits

/-!
Variables that are defined when a running script waits for them. What counts as defined when a script
is read are names that stand in its text; what is bound is up to its run. Main statement: if a
script neither jumps nor branches nor returns anywhere and no error is found in it, a run in which
no evaluation fails never misses a variable that it waits for.
-/

namespace NovelScript

open Script (Host)

/-- Whether the report tells of an evaluation that failed. -/
def Report.isFailure : Report → Bool
  | finding (.evaluationFailed _ _) _ => true
  | _ => false

/-- Whether the report tells of a variable that is missed. -/
def Report.isMissing : Report → Bool
  | finding (.undefinedVariable _) _ => true
  | _ => false

/-- Some report tells of an evaluation that failed. -/
def Report.Fail (reports : Array Report) : Prop := ∃ r ∈ reports, r.isFailure = true

/-- No report tells of a variable that is missed. -/
def Report.MissNone (reports : Array Report) : Prop := ∀ r ∈ reports, r.isMissing = false

theorem Report.MissNone.push {reports : Array Report} (h : MissNone reports) {r : Report}
    (hr : r.isMissing = false) : MissNone (reports.push r) := by
  intro r' hr'
  rcases Array.mem_push.mp hr' with hold | rfl
  · exact h r' hold
  · exact hr

/-- The text can be read, and no `return` stands in it. -/
def Expr.IsReturnless (source : String) : Prop :=
  ∃ program, Expr.parse source = .ok program ∧ Expr.blockIsReturnless program = true

namespace Script

/-- No `return` stands in an expression of the command, as far as it can be read. -/
def Command.isReturnless (c : Command) : Bool :=
  c.sources.all fun source =>
    match Expr.parse source with
    | .ok program => Expr.blockIsReturnless program
    | .error _ => true

variable {source : String} {program : Expr.Program} {base : Nat} {names : List String}

theorem Command.blockIsReturnless {c : Command} (h : c.isReturnless = true)
    (hsource : source ∈ c.sources) (hparse : Expr.parse source = .ok program) :
    Expr.blockIsReturnless program = true := by
  have hall := List.all_eq_true.mp h source hsource
  simpa [hparse] using hall

/-- Every command leads to the next one, waits for no variable but those bound before it, and has
expressions that can be read and have no `return`. -/
structure Queue.IsStraight (q : Queue) : Prop where
  grounded : q.Grounded []
  sources : ∀ k c, q.get? k = some c → ∀ source ∈ c.sources, Expr.IsReturnless source

namespace Machine

variable {q : Queue} {machine after : Machine} {c : Command} {event? : Option Event}

/-! ### Evaluating -/

/-- An evaluation fails, and this is reported, or it binds the names of its text. -/
theorem evaluate_knows (h : machine.heap.Knows base names)
    (hparse : Expr.parse source = .ok program)
    (hreturnless : Expr.blockIsReturnless program = true) (place : Option Position) :
    (∃ r after, machine.evaluate source place = (none, after) ∧ r.isFailure = true ∧
        after.reports = machine.reports.push r) ∨
      ∃ v heap, machine.evaluate source place = (some v, { machine with heap }) ∧
        v.IsCalm base ∧ heap.Knows base (names ++ program.boundNames) := by
  obtain ⟨v, heap, hrun, hv, -, hknows⟩ := h.evalText hparse hreturnless
  unfold evaluate
  simp only [hrun]
  cases v with
  | error fault => exact .inl ⟨_, _, rfl, rfl, rfl⟩
  | _ => exact .inr ⟨_, heap, rfl, hv, hknows rfl⟩

/-- Reports stay. -/
theorem mem_define {r : Report} (place : Option Position) (definitions : List Definition) :
    ∀ {machine : Machine}, r ∈ machine.reports →
      r ∈ (machine.define place definitions).reports := by
  induction definitions with
  | nil => exact fun h => h
  | cons d ds ih =>
    intro machine h
    rw [define, List.foldl_cons]
    refine ih ?_
    have heval : r ∈ (machine.evaluate d.source place).2.reports := by
      unfold evaluate
      simp only
      split
      · exact Array.mem_push_of_mem _ h
      · exact h
      · exact Array.mem_push_of_mem _ h
    generalize machine.evaluate d.source place = result at heval
    obtain ⟨_ | value, after⟩ := result
    · exact heval
    · exact Array.mem_push_of_mem _ heval

/-- An evaluation has failed, or the names are bound and no variable has been missed. -/
def FailsOrKnows (base : Nat) (names : List String) (machine : Machine) : Prop :=
  Report.Fail machine.reports ∨
    machine.heap.Knows base names ∧ Report.MissNone machine.reports

theorem failsOrKnows_evaluate (h : machine.heap.Knows base names)
    (hmiss : Report.MissNone machine.reports) (hparse : Expr.parse source = .ok program)
    (hreturnless : Expr.blockIsReturnless program = true) (place : Option Position) :
    (machine.evaluate source place).2.FailsOrKnows base (names ++ program.boundNames) := by
  rcases evaluate_knows h hparse hreturnless place with
    ⟨r, after, heval, hr, hreports⟩ | ⟨v, heap, heval, -, hknows⟩
  · exact .inl ⟨r, by simp [heval, hreports], hr⟩
  · exact .inr (heval ▸ ⟨hknows, hmiss⟩)

/-- Definitions bind their names one after the other. -/
theorem failsOrKnows_define (place : Option Position) (definitions : List Definition) :
    ∀ {machine : Machine} {names : List String}, machine.heap.Knows base names →
      Report.MissNone machine.reports → (∀ d ∈ definitions, Expr.IsReturnless d.source) →
        (machine.define place definitions).FailsOrKnows base
          (names ++ definitions.map Definition.name) := by
  induction definitions with
  | nil => exact fun h hmiss _ => .inr ⟨(List.append_nil _).symm ▸ h, hmiss⟩
  | cons d ds ih =>
    intro machine names h hmiss hsources
    obtain ⟨⟨program, hparse, hreturnless⟩, hrest⟩ := List.forall_mem_cons.mp hsources
    rw [define, List.foldl_cons]
    rcases evaluate_knows h hparse hreturnless place with
      ⟨r, after, heval, hr, hreports⟩ | ⟨v, heap, heval, hv, hknows⟩
    · -- whatever comes of the other definitions, the failure is reported
      rw [heval]
      exact .inl ⟨r, mem_define place ds (by simp [hreports]), hr⟩
    · rw [heval, List.map_cons, List.append_cons]
      have hset : (heap.set d.name v Expr.Heap.root).Knows base (names ++ [d.name]) :=
        (hknows.mono fun _ => List.mem_append_left _).set hv d.name
      exact ih hset (Report.MissNone.push hmiss rfl) hrest

/-! ### Steps -/

/-- The time of a pause is found, if its variable is bound. -/
theorem resolve_ne_undefinedVariable {time : WaitTime} {name : String}
    (h : machine.heap.Knows base names)
    (hwait : ∀ name, time = .named name → name ∈ names) :
    (time.resolve (findTime machine.heap)).1 ≠ .error (.undefinedVariable name) := by
  obtain ⟨name, value | value⟩ := time
  · obtain ⟨v, hv⟩ := h.exists_lookup? (hwait name rfl)
    unfold WaitTime.resolve findTime
    simp only [hv]
    cases v <;> simp
  · simp [WaitTime.resolve]

/-- A command that takes no turn binds its names. -/
theorem failsOrKnows_execute (h : machine.heap.Knows base names)
    (hmiss : Report.MissNone machine.reports) (hstraight : c.isTurn = false)
    (hsources : ∀ source ∈ c.sources, Expr.IsReturnless source)
    (hwait : ∀ name, c = .waitTime (.named name) → name ∈ names) (id : CommandId) :
    (machine.execute id c).2.FailsOrKnows base (names ++ c.binds) := by
  have hsame : names ++ [] = names := List.append_nil names
  unfold execute
  cases c with
  | waitTime time =>
    have hfound : ∀ name, (time.resolve (findTime machine.heap)).1 ≠
        .error (.undefinedVariable name) := fun _ =>
      resolve_ne_undefinedVariable h fun name heq => hwait name (congrArg _ heq)
    refine .inr ?_
    simp only [wait, Command.binds, hsame]
    split
    · exact ⟨h, hmiss⟩
    · rename_i finding hfinding
      refine ⟨h, Report.MissNone.push hmiss ?_⟩
      rw [hfinding] at hfound
      cases finding <;> simp_all [Report.isMissing]
  | define definitions =>
    exact failsOrKnows_define _ definitions h hmiss fun d hd =>
      hsources d.source (List.mem_map_of_mem hd)
  | eval source =>
    obtain ⟨program, hparse, hreturnless⟩ := hsources source List.mem_cons_self
    have heval := failsOrKnows_evaluate h hmiss hparse hreturnless (machine.script.position? id)
    simpa [Command.binds, hparse] using heval
  | embed source =>
    obtain ⟨program, hparse, hreturnless⟩ := hsources source List.mem_cons_self
    rcases evaluate_knows h hparse hreturnless (machine.script.position? id) with
      ⟨r, after, heval, hr, hreports⟩ | ⟨v, heap, heval, -, hknows⟩
    · simp only [heval]
      exact .inl ⟨r, by simp [hreports], hr⟩
    · simp only [heval]
      exact .inr ⟨hknows.mono fun _ hname => List.mem_append_left _ (hsame ▸ hname), hmiss⟩
  | jump _ | «if» _ _ | elif _ | «else» => cases hstraight
  | _ => exact .inr ⟨hsame.symm ▸ h, hmiss⟩

/-- The machine has run the commands before its cursor, and has bound their names. The commands
that are still to come are as they were. -/
structure Prepared (base : Nat) (q : Queue) (machine : Machine) : Prop where
  ahead : ∀ k, machine.cursor ≤ k → machine.script.queue.get? k = q.get? k
  knows : machine.heap.Knows base (q.boundBefore machine.cursor)

/-- **One step** fails, or leads to a machine that is prepared for the next one, and no variable is
missed. -/
theorem Prepared.next? (h : machine.Prepared base q) (hq : q.IsStraight)
    (hnext : machine.next? = some (event?, after)) :
    Report.Fail after.reports ∨ after.Prepared base q ∧ Report.MissNone after.reports := by
  obtain ⟨c, hc, -, hafter⟩ := exists_of_next? hnext
  have hget : q.get? machine.cursor = some c := (h.ahead _ (Nat.le_refl _)).symm.trans hc
  have hstraight := hq.grounded.straight _ c hget
  have hcursor := cursor_next?_straight hc hstraight hnext
  have hknows : machine.told.heap.Knows base (q.boundBefore machine.cursor) := h.knows
  have hnone : Report.MissNone machine.told.reports := by simp [Report.MissNone, told]
  have hexecute := failsOrKnows_execute hknows hnone hstraight (hq.sources _ c hget)
    (fun name heq => (hq.grounded.waits _ name (heq ▸ hget)).resolve_left List.not_mem_nil)
    machine.cursor
  have hheap : after.heap = (machine.told.execute machine.cursor c).2.heap := hafter ▸ rfl
  have hreports : after.reports = (machine.told.execute machine.cursor c).2.reports := hafter ▸ rfl
  rw [FailsOrKnows, ← hreports, ← hheap] at hexecute
  rcases hexecute with hfail | ⟨hbound, hmiss⟩
  · exact .inl hfail
  · refine .inr ⟨⟨fun k hk => ?_, ?_⟩, hmiss⟩
    · rw [hcursor] at hk
      rw [get?_next?_of_ne hnext (Nat.ne_of_gt hk)]
      exact h.ahead k (Nat.le_of_succ_le hk)
    · rwa [hcursor, Queue.boundBefore_succ hget]

/-! ### Runs -/

/-- As far as a machine has come and reported: an evaluation has failed, or no variable has been
missed and the machine is prepared. -/
def OnCourse (base : Nat) (q : Queue) (log : Array Report) (machine : Machine) : Prop :=
  Report.Fail log ∨ machine.Prepared base q ∧ Report.MissNone log

theorem OnCourse.next? {log : Array Report} (h : OnCourse base q log machine) (hq : q.IsStraight)
    (hnext : machine.next? = some (event?, after)) :
    OnCourse base q (log ++ after.reports) after := by
  rcases h with ⟨r, hr, hfails⟩ | ⟨hprepared, hmiss⟩
  · exact .inl ⟨r, Array.mem_append_left _ hr, hfails⟩
  · rcases hprepared.next? hq hnext with ⟨r, hr, hfails⟩ | ⟨hprepared', hmiss'⟩
    · exact .inl ⟨r, Array.mem_append_right _ hr, hfails⟩
    · refine .inr ⟨hprepared', fun r hr => ?_⟩
      exact (Array.mem_append.mp hr).elim (hmiss r) (hmiss' r)

theorem OnCourse.fail_or_missNone {log : Array Report} (h : OnCourse base q log machine) :
    Report.Fail log ∨ Report.MissNone log :=
  h.imp_right And.right

/-- **A run** reports that an evaluation failed, or else misses no variable. -/
theorem OnCourse.run (hq : q.IsStraight) {σ : Type} (host : Host (StateM σ)) (n : Nat) :
    ∀ {machine : Machine} {log : Array Report} (world : σ), OnCourse base q log machine →
      let reports := ((Machine.run host n machine log).run world).1.2.2
      Report.Fail reports ∨ Report.MissNone reports := by
  induction n with
  | zero => exact fun world h => h.fail_or_missNone
  | succ n ih =>
    intro machine log world h
    cases hnext : machine.next? with
    | none =>
      rw [run_none host hnext]
      rcases h.fail_or_missNone with ⟨r, hr, hfails⟩ | hmiss
      · exact .inl ⟨r, Array.mem_push_of_mem _ hr, hfails⟩
      · exact .inr (hmiss.push rfl)
    | some next =>
      obtain ⟨event?, after⟩ := next
      have hafter := h.next? hq hnext
      cases event? with
      | none =>
        rw [run_quiet host hnext]
        exact ih _ hafter
      | some event =>
        rw [run_asking host hnext]
        simp only
        split
        · exact ih _ hafter
        · exact hafter.fail_or_missNone

end Machine

/-! ### Scripts -/

theorem isStraight_ofTokens {tokens : List Token}
    (hstraight : ∀ token ∈ tokens, token.isStraight = true)
    (hreturnless : ∀ c ∈ (ofTokens [] tokens).1.queue.commands, c.isReturnless = true)
    (hclean : ∀ found ∈ (ofTokens [] tokens).2, found.1.severity ≠ .error) :
    (ofTokens [] tokens).1.queue.IsStraight where
  grounded := grounded_of_clean hstraight hclean
  sources k c hc source hsource := by
    obtain ⟨program, hparse⟩ := parses_of_clean hclean hc source hsource
    have hnone := hreturnless c (Array.mem_of_getElem? hc)
    exact ⟨program, hparse, Command.blockIsReturnless hnone hsource hparse⟩

end Script

namespace Session

variable {s : Session} {source : String} {tokens : List Script.Token}

theorem names_of_bindings_nil (h : s.bindings = []) : s.bindings.names = [] := by
  simp [h, Expr.Bindings.names]

/-- **No variable is missed** that counts as defined when the script is read. In a script without
`if`, `elif`, `else`, `endif` and `jump`, none of whose expressions has a `return`, no error is found,
and it is executed among no variables. Whoever the host is, it is run, and if no report of the run
tells that an evaluation failed, none tells that the variable of a pause is not defined. -/
theorem finds_variables (hok : Script.tokens source = .ok tokens)
    (hstraight : ∀ token ∈ tokens, token.isStraight = true)
    (hreturnless : ∀ c ∈ (Script.ofTokens [] tokens).1.queue.commands, c.isReturnless = true)
    (hheap : s.heap.Reachable) (hempty : s.bindings = [])
    (hclean : ∀ r ∈ (s.read source).1, r.isError = false)
    {σ : Type} (host : Host (StateM σ)) (steps : Nat) (world : σ) :
    let script := (Script.ofTokens [] tokens).1
    let readout := s.readout source script
    let run := (Script.Machine.run host steps { script, heap := s.heap } #[]).run
      ((readout.forM host.tell).run world).2
    let reports := run.1.2.2
    (s.execute host steps source).run world =
        ((run.1.1, { s with
          heap := run.1.2.1.heap
          log := s.log.addReports s.catalog (readout ++ reports.toList) }), run.2) ∧
      ((∀ r ∈ reports, r.isFailure = false) → ∀ r ∈ reports, r.isMissing = false) := by
  have hnames := names_of_bindings_nil hempty
  have hfound := clean_of_read hok hclean
  have hruns := not_rejects_of_read hok hclean
  rw [hnames] at hfound
  intro script readout run reports
  refine ⟨?_, fun hok => ?_⟩
  · rw [execute_runs hok hruns, hnames]
    rfl
  · have hcursor : script.queue.cursor = 0 := Script.cursor_ofTokens [] tokens
    have hknows : s.heap.Knows s.heap.scopes.size (script.queue.boundBefore script.queue.cursor) :=
      hcursor ▸ hheap.knows hempty
    have hstart : Script.Machine.OnCourse s.heap.scopes.size script.queue #[]
        { script, heap := s.heap } :=
      .inr ⟨⟨fun _ _ => rfl, hknows⟩, by simp [Report.MissNone]⟩
    have hqueue := Script.isStraight_ofTokens hstraight hreturnless hfound
    rcases hstart.run hqueue host steps _ with ⟨r, hr, hfails⟩ | hmiss
    · rw [hok r hr] at hfails
      cases hfails
    · exact hmiss

/-- A function of the script adds to one of its variables, and so makes another one; both are waited
for. -/
def twoPauses : String :=
  "a[var t=2][eval exp=\"f=function(x){y=x+t};u=f(1)\"][wait time=u]b[wait time=t]"

theorem finds_variables_twoPauses :
    let s : Session := {}
    ∃ tokens, Script.tokens twoPauses = .ok tokens ∧
      let script := (Script.ofTokens [] tokens).1
      let run := (Script.Machine.run Host.recorder 9 { script, heap := s.heap } #[]).run []
      (∀ token ∈ tokens, token.isStraight = true) ∧
      (∀ c ∈ script.queue.commands, c.isReturnless = true) ∧
      s.heap.Reachable ∧ s.bindings = [] ∧ (∀ r ∈ (s.read twoPauses).1, r.isError = false) ∧
      run.2 = [.text "a", .wait 3, .text "b", .wait 2] ∧
      (∀ r ∈ run.1.2.2, r.isFailure = false) ∧ ∀ r ∈ run.1.2.2, r.isMissing = false := by
  intro s
  have hnames : s.bindings.names = [] := names_of_bindings_nil rfl
  let tokens := (Script.tokens twoPauses).toOption.getD []
  have hok : Script.tokens twoPauses = .ok tokens := rfl
  refine ⟨tokens, hok, ?_⟩
  intro script run
  obtain ⟨hstraight, hreturnless⟩ : (∀ token ∈ tokens, token.isStraight = true) ∧
      ∀ c ∈ script.queue.commands, c.isReturnless = true := by decide +kernel
  have hclean : ∀ r ∈ (s.read twoPauses).1, r.isError = false := by
    simp only [read, hok, hnames]
    decide +kernel
  obtain ⟨hevents, hsucceeds⟩ : run.2 = [.text "a", .wait 3, .text "b", .wait 2] ∧
      ∀ r ∈ run.1.2.2, r.isFailure = false := by decide +kernel
  obtain ⟨-, hfinds⟩ :=
    finds_variables hok hstraight hreturnless .single rfl hclean Host.recorder 9 []
  have hworld : (((s.readout twoPauses script).forM Host.recorder.tell).run []).2 = [] :=
    Script.records_recorder.keeps.tellAll _ []
  rw [hworld] at hfinds
  exact ⟨hstraight, hreturnless, .single, rfl, hclean, hevents, hsucceeds, hfinds hsucceeds⟩

end Session
end NovelScript
