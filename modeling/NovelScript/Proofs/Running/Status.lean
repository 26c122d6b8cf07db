import NovelScript.Program
import NovelScript.Proofs.Running.Hosts

/-!
Exit statuses. A script has a status by its text alone: it cannot be read, or reading it logs an
error, or neither. Main statement: this is the status of a program that lists the script, and also
of one that runs it strictly, if the run comes to its end; so both accept the same scripts.
-/

namespace NovelScript

open Script (Host Outcome)

/-- The exit status of an outcome. -/
def Script.Outcome.status : Outcome → UInt32
  | finished => 0
  | malformed _ => 2
  | rejected _ => 1
  | interrupted _ | unfinished => 130

namespace Program

section

variable {m : Type → Type} [Monad m]

/-! ### The script is found -/

/-- The text of the script. -/
def scriptText (w : World m) : ScriptSource → m (Except ReadError String)
  | .stdin => w.inputText
  | .file path => w.fileText path

/-- Loads a configuration and reads the text of the script, or gives what is wrong in words. -/
def opening (w : World m) (arguments : Arguments) : m (Except String (Config × String)) := do
  match ← loadConfig w arguments.config with
  | .error problem => return .error problem
  | .ok (config, problems) =>
    let level := logLevel arguments.switches config
    let name := arguments.script.name
    problems.forM fun p => showRecord w level (.note .warn p)
    match ← scriptText w arguments.script with
    | .error e => return .error (name ++ ": " ++ e.message)
    | .ok source =>
      showRecord w level
        (.note .debug ("loaded " ++ name ++ " (" ++ toString source.utf8ByteSize ++ " bytes)"))
      return .ok (config, source)

variable [LawfulMonad m]

/-- The program plays the script that it finds. -/
theorem run_eq_opening (w : World m) (steps : Nat) {argv : List String} {arguments : Arguments}
    (h : Arguments.read argv = .ok arguments) : run w steps argv = do
      match ← opening w arguments with
      | .ok (config, source) => play w steps arguments config arguments.script.name source
      | .error problem =>
        w.complain ("vns: " ++ problem)
        return 1 := by
  simp only [run, h, opening, bind_assoc]
  congr 1
  funext loaded
  cases loaded with
  | error problem => simp
  | ok loaded =>
    simp only [bind_assoc]
    congr 1
    funext _
    cases arguments.script <;>
    · simp only [scriptText]
      congr 1
      funext read
      cases read <;> simp [String.append_assoc]

/-! ### Showing a script -/

/-- Shows the script on a console. -/
def showing (w : World m) (steps : Nat) (arguments : Arguments) (config : Config)
    (source : String) : m Outcome := do
  let level := logLevel arguments.switches config
  let session : Session := { strict := config.strict || arguments.switches.strict }
  let console : Console := { settings := consoleSettings w config }
  let ((outcome, _), _) ← (session.execute (host w level session.catalog) steps source).run console
  return outcome

theorem play_eq_showing (w : World m) (steps : Nat) {arguments : Arguments}
    (hdump : arguments.switches.dump = false) (config : Config) (name source : String) :
    play w steps arguments config name source =
      showing w steps arguments config source >>= conclude w name := by
  simp [play, showing, hdump]

end

/-- Started with these arguments in the world `world`, the program finds a configuration and the
text of a script, and the world is `opened` then. -/
structure Finds {σ : Type} (w : World (StateM σ)) (argv : List String) (world : σ)
    (arguments : Arguments) (config : Config) (source : String) (opened : σ) : Prop where
  read : Arguments.read argv = .ok arguments
  opens : (opening w arguments).run world = (.ok (config, source), opened)

/-! ### Statuses -/

/-- The status that the text of a script deserves: 2 if it cannot be read, 1 if reading it logs an
error, and 0 otherwise. -/
def verdict (source : String) : UInt32 :=
  match Script.tokens source with
  | .error _ => 2
  | .ok _ => if 0 < Session.errorsLogged {} source then 1 else 0

variable {σ : Type} {w : World (StateM σ)} {argv : List String} {world opened : σ}
  {arguments : Arguments} {config : Config} {source : String}

theorem Finds.status_run (h : Finds w argv world arguments config source opened) (steps : Nat) :
    ((run w steps argv).run world).1 =
      ((play w steps arguments config arguments.script.name source).run opened).1 := by
  rw [run_eq_opening w steps h.read, StateT.run_bind, h.opens]
  rfl

/-- A listing has the status that the text deserves, also of a session that is not strict. -/
theorem status_dump (w : World (StateM σ)) (level : LogLevel) (name source : String)
    (strict : Bool) (world : σ) :
    ((dump w level name source { strict }).run world).1 = verdict source := by
  have hlogged : Session.errorsLogged {} source =
      (Session.addReports (Session.read source { strict }).1 { strict }).log.count .error := rfl
  rw [verdict, hlogged, dump]
  unfold Session.read
  cases hread : Script.tokens source with
  | error e => rfl
  | ok tokens =>
    simp only [Log.hasErrors, decide_eq_true_eq]
    generalize (if 0 < _ then (1 : UInt32) else 0) = status
    rfl

theorem status_conclude (w : World (StateM σ)) (name : String) (outcome : Outcome) (world : σ) :
    ((conclude w name outcome).run world).1 = outcome.status := by
  cases outcome <;> rfl

/-- A strict session rejects the scripts that log an error when they are read, and no others. -/
theorem rejects_iff_of_strict {s : Session} {tokens : List Script.Token} (hstrict : s.strict = true)
    (hok : Script.tokens source = .ok tokens) : s.Rejects source ↔ 0 < s.errorsLogged source := by
  constructor
  · rintro ⟨tokens', hok', hstructural | ⟨-, herrors⟩⟩
    · obtain rfl := Except.ok.inj (hok.symm.trans hok')
      have hle := Script.structuralErrors_le s.bindings.names tokens
      rw [← Session.errorsLogged_of_ok hok] at hle
      exact Nat.lt_of_lt_of_le hstructural hle
    · exact herrors
  · exact fun herrors => ⟨tokens, hok, .inr ⟨hstrict, herrors⟩⟩

/-- Strict running ends with the status that the text deserves, unless the run is cut short. -/
theorem status_showing (hstrict : (config.strict || arguments.switches.strict) = true)
    (steps : Nat) (world : σ) :
    let outcome := ((showing w steps arguments config source).run world).1
    outcome.status = verdict source ∨ outcome = .unfinished ∨
      ∃ reason, outcome = .interrupted reason := by
  intro outcome
  let s : Session := { strict := true }
  have hrefused : ∀ {refused : Outcome} {log : Log}, s.Refuses source refused log →
      outcome = refused := by
    rintro refused log ⟨reports, hexecute⟩
    simp only [outcome, showing, hstrict, s, hexecute]
    rfl
  cases hread : Script.tokens source with
  | error e =>
    left
    rw [hrefused (Session.refuses_malformed hread), verdict, hread]
    rfl
  | ok tokens =>
    have hrejects := rejects_iff_of_strict (s := s) rfl hread
    have hlogged : Session.errorsLogged {} source = s.errorsLogged source := rfl
    rw [verdict, hread, hlogged]
    by_cases herrors : 0 < s.errorsLogged source
    · left
      rw [hrefused (Session.refuses_rejected (hrejects.mpr herrors))]
      exact (if_pos herrors).symm
    · obtain ⟨ran, hran⟩ := Session.exists_execute_eq_ran hread (mt hrejects.mp herrors)
        (host w (logLevel arguments.switches config) s.catalog) steps
      have hruns : outcome.refuses = false := by
        simp only [outcome, showing, hstrict, s, hran]
        exact ((ran.run _).run world).1.1.1.property
      simp only [if_neg herrors]
      cases houtcome : outcome with
      | finished => exact .inl rfl
      | interrupted reason => exact .inr (.inr ⟨reason, rfl⟩)
      | unfinished => exact .inr (.inl rfl)
      | malformed _ | rejected _ => simp [houtcome, Script.Outcome.refuses] at hruns

/-- **Listing and strict running accept the same scripts.** Whatever worlds they are started in, a
program that lists a script and one that runs the same text strictly end with the same status if the
run comes to its end and is not interrupted: it is the status that the text deserves. -/
theorem status_dump_eq_status_strict {σ' : Type} {w' : World (StateM σ')} {argv' : List String}
    {world' opened' : σ'} {arguments' : Arguments} {config' : Config}
    (hlists : Finds w argv world arguments config source opened)
    (hdump : arguments.switches.dump = true)
    (hruns : Finds w' argv' world' arguments' config' source opened')
    (hstrict : arguments'.switches.strict = true) (hplain : arguments'.switches.dump = false)
    (steps steps' : Nat)
    (hends : ((showing w' steps' arguments' config' source).run opened').1 ≠ .unfinished)
    (hgoes : ∀ reason,
      ((showing w' steps' arguments' config' source).run opened').1 ≠ .interrupted reason) :
    ((run w steps argv).run world).1 = ((run w' steps' argv').run world').1 ∧
      ((run w' steps' argv').run world').1 = verdict source := by
  have hlisted : ((run w steps argv).run world).1 = verdict source := by
    rw [hlists.status_run, play, if_pos hdump]
    exact status_dump ..
  have hran : ((run w' steps' argv').run world').1 = verdict source := by
    rw [hruns.status_run, play_eq_showing _ _ hplain, StateT.run_bind]
    refine (status_conclude ..).trans ?_
    refine (status_showing (by simp [hstrict]) steps' opened').resolve_right ?_
    rintro (hcut | ⟨reason, hcut⟩)
    · exact hends hcut
    · exact hgoes reason hcut
  exact ⟨hlisted.trans hran.symm, hran⟩

/-- A script that divides by zero, which is found only when it is run. -/
def divisionByZero : String := "[eval exp=\"1/0\"]a"

/-- A world with a configuration and a script, where all that is complained of is written down. -/
def shelf : World (StateM (List String)) where
  namedConfig := some "settings"
  userConfig := none
  inputIsTerminal := false
  outputIsTerminal := false
  exists? path := return path = "settings"
  fileText path := return .ok (if path = "settings" then "wait_scale = 0" else divisionByZero)
  inputText := return .error .notText
  write _ := return ()
  complain line := modify (· ++ [line])
  waitKey := return some "no key"
  sleep _ := return ()

/-- What goes wrong in a run is complained of, and makes no difference to the status. -/
theorem status_dump_eq_status_strict_divisionByZero :
    let listed := (run shelf 0 ["--dump", "story"]).run []
    let strict := (run shelf 3 ["-s", "story"]).run []
    listed.2 = [] ∧ strict.2 ≠ [] ∧ listed.1 = strict.1 ∧ strict.1 = verdict divisionByZero := by
  intro listed strict
  have hlists : Finds shelf ["--dump", "story"] [] ⟨.search, { dump := true }, .file "story"⟩
      { waitScale := 0 } divisionByZero [] := ⟨rfl, rfl⟩
  have hruns : Finds shelf ["-s", "story"] [] ⟨.search, { strict := true }, .file "story"⟩
      { waitScale := 0 } divisionByZero [] := ⟨rfl, rfl⟩
  obtain ⟨houtcome, hcomplaints⟩ :
      ((showing shelf 3 ⟨.search, { strict := true }, .file "story"⟩ { waitScale := 0 }
        divisionByZero).run []).1 = .finished ∧ listed.2 = [] ∧ strict.2 ≠ [] := by
    decide +kernel
  have hagree := status_dump_eq_status_strict hlists rfl hruns rfl rfl 0 3
    (by rw [houtcome]; exact nofun) (by rw [houtcome]; exact fun _ => nofun)
  exact ⟨hcomplaints.1, hcomplaints.2, hagree⟩

end Program
end NovelScript
