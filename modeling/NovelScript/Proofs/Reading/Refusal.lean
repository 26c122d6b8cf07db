import NovelScript.Proofs.Reading.Findings
import NovelScript.Proofs.Running.Steps

/-!
Scripts that are refused. A session refuses a script whose text is malformed, one with broken
conditionals and, if it is strict, one with any error. Main statement: it refuses no others, and a
refused script leaves nothing behind but what the log says about it.
-/

namespace NovelScript

open Script (Host Outcome)

/-- Whether a script was refused, and not run at all. -/
def Script.Outcome.refuses : Outcome → Bool
  | malformed _ | rejected _ => true
  | finished | interrupted _ | unfinished => false

/-- A report is an error exactly if it adds an error to the log. -/
theorem Report.isError_eq (catalog : Catalog) (r : Report) :
    r.isError = ((Record.entry? (r.record catalog)).map
      fun e => decide (e.severity = .error)).getD false := by
  cases r <;> rfl

namespace Session

variable {s : Session} {source : String}

/-! ### Errors in the log -/

/-- The number of errors that reading a script adds to the log. -/
def errorsLogged (s : Session) (source : String) : Nat :=
  (s.addReports (s.read source).1).log.count .error - s.log.count .error

/-- The errors among reports are those that they add to the log. -/
theorem length_filter_entries (catalog : Catalog) (reports : List Report) :
    ((reports.filterMap fun r => Record.entry? (r.record catalog)).filter
      (·.severity = .error)).length = errorCount reports := by
  rw [errorCount, ← List.countP_eq_length_filter, ← List.countP_eq_length_filter,
    List.countP_filterMap]
  refine List.countP_congr fun r _ => ?_
  rw [Report.isError_eq catalog]

theorem errorsLogged_eq (s : Session) (source : String) :
    s.errorsLogged source = errorCount (s.read source).1 := by
  have hcount : (s.addReports (s.read source).1).log.count .error =
      s.log.count .error + errorCount (s.read source).1 := by
    simp only [Log.count, addReports, Log.entries_addReports, List.filter_append,
      List.length_append, length_filter_entries]
  rw [errorsLogged, hcount, Nat.add_sub_cancel_left]

/-- The errors that reading a script adds to the log are those found in it. -/
theorem errorsLogged_of_ok {tokens : List Script.Token} (h : Script.tokens source = .ok tokens) :
    s.errorsLogged source =
      ((Script.ofTokens s.bindings.names tokens).2.filter (·.1.severity = .error)).length := by
  have hfound : ∀ found : List (Finding × Option Position),
      errorCount (.parsing tokens.length :: found.map fun p => .finding p.1 p.2) =
        (found.filter (·.1.severity = .error)).length := by
    intro found
    rw [errorCount, List.filter_cons_of_neg (by simp [Report.isError]), List.filter_map,
      List.length_map]
    rfl
  rw [errorsLogged_eq, read, h]
  exact hfound _

/-! ### Refusing -/

/-- The session does not run the script. Whoever the host is, it takes notice of some reports and is
asked for nothing; the session keeps all but its log. -/
def Refuses (s : Session) (source : String) (outcome : Outcome) (log : Log) : Prop :=
  ∃ reports : List Report, ∀ {m : Type → Type} [Monad m] [LawfulMonad m] (host : Host m)
    (steps : Nat), s.execute host steps source = do
      reports.forM host.tell
      return (outcome, { s with log })

/-- The script can be read, but its conditionals are broken, or the session is strict and reading
it adds an error to the log. -/
def Rejects (s : Session) (source : String) : Prop :=
  ∃ tokens, Script.tokens source = .ok tokens ∧
    (0 < (Script.ofTokens s.bindings.names tokens).1.structuralErrors ∨
      s.strict = true ∧ 0 < s.errorsLogged source)

/-- A script whose reading reports no error has none. -/
theorem clean_of_read {tokens : List Script.Token} (hok : Script.tokens source = .ok tokens)
    (hclean : ∀ r ∈ (s.read source).1, r.isError = false) :
    ∀ found ∈ (Script.ofTokens s.bindings.names tokens).2, found.1.severity ≠ .error := by
  intro found hfound
  have hread : .finding found.1 found.2 ∈ (s.read source).1 := by
    simp only [read, hok]
    exact List.mem_cons_of_mem _ (List.mem_map_of_mem hfound)
  simpa [Report.isError] using hclean _ hread

/-- A script whose reading reports no error is not refused. -/
theorem not_rejects_of_read {tokens : List Script.Token} (hok : Script.tokens source = .ok tokens)
    (hclean : ∀ r ∈ (s.read source).1, r.isError = false) : ¬ s.Rejects source := by
  rintro ⟨tokens', hok', hstructural | ⟨-, herrors⟩⟩
  · obtain rfl := Except.ok.inj (hok.symm.trans hok')
    rw [Script.structuralErrors_of_clean (clean_of_read hok hclean)] at hstructural
    exact absurd hstructural (Nat.lt_irrefl 0)
  · rw [errorsLogged_eq, errorCount, List.filter_eq_nil_iff.mpr (by simpa using hclean)] at herrors
    exact absurd herrors (Nat.lt_irrefl 0)

theorem refuses_malformed {e : Script.SyntaxError} (h : Script.tokens source = .error e) :
    s.Refuses source (.malformed e) (s.log.addReports s.catalog [.malformed e]) := by
  refine ⟨[.malformed e], fun host steps => ?_⟩
  simp [execute, read, h, tell, addReports]

theorem refuses_rejected (h : s.Rejects source) :
    s.Refuses source (.rejected (s.errorsLogged source))
      (s.log.addReports s.catalog (s.read source).1) := by
  obtain ⟨tokens, hok, hwhy⟩ := h
  refine ⟨(s.read source).1, fun host steps => ?_⟩
  rw [errorsLogged_eq] at hwhy ⊢
  simp only [execute, read, hok] at hwhy ⊢
  simp [tell, addReports, hwhy]

/-- A script that is not refused is run when its reports have been told. -/
theorem execute_of_not_rejects {m : Type → Type} [Monad m] [LawfulMonad m]
    {tokens : List Script.Token} (hok : Script.tokens source = .ok tokens)
    (h : ¬ s.Rejects source) (host : Host m) (steps : Nat) : s.execute host steps source = do
      let told ← s.tell host (s.read source).1
      let (outcome, _, after) ← told.run host steps (Script.ofTokens s.bindings.names tokens).1
      return (outcome, after) := by
  have hwhy : ¬ (0 < (Script.ofTokens s.bindings.names tokens).1.structuralErrors ∨
      s.strict = true ∧ 0 < s.errorsLogged source) := fun hwhy => h ⟨tokens, hok, hwhy⟩
  rw [errorsLogged_eq] at hwhy
  simp only [execute, read, hok] at hwhy ⊢
  simp [tell, addReports, hwhy]

/-! ### Running is no refusal -/

/-- The outcomes of scripts that are run. -/
abbrev Ran : Type := { outcome : Outcome // outcome.refuses = false }

/-- A run is no refusal, whatever the host may do. -/
theorem exists_machine_run_eq {m : Type → Type} [Monad m] [LawfulMonad m] (host : Host m)
    (n : Nat) : ∀ (machine : Script.Machine) (log : Array Report),
      ∃ ran : m (Ran × Script.Machine × Array Report),
        Script.Machine.run host n machine log = (fun r => (r.1.val, r.2)) <$> ran := by
  induction n with
  | zero =>
    intro machine log
    exact ⟨pure (⟨.unfinished, rfl⟩, machine, log), by simp [Script.Machine.run]⟩
  | succ n ih =>
    intro machine log
    cases hnext : machine.next? with
    | none =>
      refine ⟨do
        host.tell .finished
        return (⟨.finished, rfl⟩, machine, log.push .finished), ?_⟩
      simp [Script.Machine.run, hnext]
    | some next =>
      obtain ⟨event?, after⟩ := next
      obtain ⟨ran, hran⟩ := ih after (log ++ after.reports)
      cases event? with
      | none =>
        refine ⟨do
          Script.Machine.tellAll host after.reports
          ran, ?_⟩
        simp [Script.Machine.run, hnext, hran]
      | some event =>
        refine ⟨do
          Script.Machine.tellAll host after.reports
          let stop? ← host.perform event
          stop?.elim ran fun reason =>
            return (⟨.interrupted reason, rfl⟩, after, log ++ after.reports), ?_⟩
        simp only [Script.Machine.run, hnext, hran, map_bind]
        congr 1
        funext _
        congr 1
        funext stop?
        cases stop? <;> simp

/-- A script that is not refused has the outcome of a run. -/
theorem exists_execute_eq_ran {m : Type → Type} [Monad m] [LawfulMonad m]
    {tokens : List Script.Token} (hok : Script.tokens source = .ok tokens)
    (h : ¬ s.Rejects source) (host : Host m) (steps : Nat) :
    ∃ ran : m (Ran × Session),
      s.execute host steps source = (fun r => (r.1.val, r.2)) <$> ran := by
  let script := (Script.ofTokens s.bindings.names tokens).1
  obtain ⟨ran, hran⟩ := exists_machine_run_eq host steps { script, heap := s.heap } #[]
  refine ⟨do
    let told ← s.tell host (s.read source).1
    let told ← told.tell host [.running script.queue.size]
    let (outcome, machine, reports) ← ran
    return (outcome,
      { told with heap := machine.heap, log := told.log.addReports s.catalog reports.toList }), ?_⟩
  rw [execute_of_not_rejects hok h]
  simp [run, tell, addReports, script, hran]

theorem refuses_execute_of_not_rejects {σ : Type} {tokens : List Script.Token}
    (hok : Script.tokens source = .ok tokens) (h : ¬ s.Rejects source) (host : Host (StateM σ))
    (steps : Nat) (world : σ) :
    ((s.execute host steps source).run world).1.1.refuses = false := by
  obtain ⟨ran, hran⟩ := exists_execute_eq_ran hok h host steps
  rw [hran]
  exact (ran.run world).1.1.property

/-- **A refused script leaves nothing behind but the log.** A script whose text is malformed is
refused, and one entry with the place of the fault is added to the log. One that can be read is
rejected if its conditionals are broken, or if the session is strict and reading it adds an error to
the log; the errors counted are those added, and among them is every structural one. No other script
is refused. -/
theorem refusal_exact (source : String) (s : Session) :
    (∀ e : Script.SyntaxError, Script.tokens source = .error e →
      ∃ log : Log, s.Refuses source (.malformed e) log ∧
        log.entries = s.log.entries ++ [⟨.error, e.message, some e.position⟩]) ∧
    (∀ tokens : List Script.Token, Script.tokens source = .ok tokens → s.Rejects source →
      ∃ (log : Log) (gained : List Entry),
        s.Refuses source (.rejected (s.errorsLogged source)) log ∧
        log.entries = s.log.entries ++ gained ∧
        (gained.filter (·.severity = .error)).length = s.errorsLogged source ∧
        1 ≤ s.errorsLogged source ∧
        (Script.ofTokens s.bindings.names tokens).1.structuralErrors ≤ s.errorsLogged source) ∧
    ∀ {σ : Type} (host : Host (StateM σ)) (steps : Nat) (world : σ),
      let outcome := ((s.execute host steps source).run world).1.1
      (∀ e : Script.SyntaxError, outcome = .malformed e ↔ Script.tokens source = .error e) ∧
        ((∃ errors, outcome = .rejected errors) ↔ s.Rejects source) := by
  refine ⟨fun e h => ⟨_, refuses_malformed h, ?_⟩, fun tokens hok hrejects => ?_, ?_⟩
  · rw [Log.entries_addReports]
    rfl
  · -- each structural error is found, and what is found is logged
    have hstructural := Script.structuralErrors_le s.bindings.names tokens
    rw [← errorsLogged_of_ok hok] at hstructural
    refine ⟨_, _, refuses_rejected hrejects, Log.entries_addReports .., ?_, ?_, hstructural⟩
    · rw [length_filter_entries, errorsLogged_eq]
    · obtain ⟨tokens', hok', hbroken | ⟨-, herrors⟩⟩ := hrejects
      · obtain rfl := Except.ok.inj (hok.symm.trans hok')
        omega
      · exact herrors
  · intro σ host steps world outcome
    have houtcome : ∀ {refused : Outcome} {log : Log}, s.Refuses source refused log →
        outcome = refused := by
      rintro refused log ⟨reports, h⟩
      show ((s.execute host steps source).run world).1.1 = refused
      rw [h host steps]
      rfl
    cases hread : Script.tokens source with
    | error e =>
      have hnone : ¬ s.Rejects source := by
        rintro ⟨tokens, hok, -⟩
        rw [hread] at hok
        cases hok
      rw [houtcome (refuses_malformed hread)]
      simp [hnone]
    | ok tokens =>
      by_cases hrejects : s.Rejects source
      · rw [houtcome (refuses_rejected hrejects)]
        simp [hrejects]
      · have hran : outcome.refuses = false :=
          refuses_execute_of_not_rejects hread hrejects host steps world
        cases hout : outcome <;> simp_all [Script.Outcome.refuses]

/-- A script with a conditional that is not closed, and whose condition cannot be read. -/
def unclosed : String := "[if exp=\"a+\"][else]b"

theorem refusal_exact_unclosed :
    let s : Session := { log := Log.add .error "before" none {}, strict := true }
    (∃ log : Log, s.Refuses "a[if" (.malformed (.unterminatedTag ⟨1, 1, 2⟩)) log ∧
      log.entries = s.log.entries ++
        [⟨.error, (Script.SyntaxError.unterminatedTag ⟨1, 1, 2⟩).message, some ⟨1, 1, 2⟩⟩]) ∧
    ∃ (log : Log) (gained : List Entry), s.Refuses unclosed (.rejected 2) log ∧
      log.entries = s.log.entries ++ gained ∧
      (gained.filter (·.severity = .error)).length = 2 := by
  intro s
  have htorn : Script.tokens "a[if" = .error (.unterminatedTag ⟨1, 1, 2⟩) := rfl
  obtain ⟨tokens, hok, hstructural⟩ : ∃ tokens, Script.tokens unclosed = .ok tokens ∧
      0 < (Script.ofTokens s.bindings.names tokens).1.structuralErrors := by
    refine ⟨_, rfl, ?_⟩
    decide +kernel
  have htwo : s.errorsLogged unclosed = 2 := by decide +kernel
  obtain ⟨log, gained, hrefuses, hlog, hgained, -, -⟩ :=
    (refusal_exact unclosed s).2.1 tokens hok ⟨tokens, hok, .inl hstructural⟩
  rw [htwo] at hrefuses hgained
  exact ⟨(refusal_exact "a[if" s).1 _ htorn, log, gained, hrefuses, hlog, hgained⟩

end Session
end NovelScript
