import NovelScript.Program.Arguments
import NovelScript.Program.Console
import NovelScript.Session

/-!
The program: it reads its arguments, its configuration and a script, and shows the script on a
console or lists its commands. What it needs of the world around it is a record of actions.
-/

namespace NovelScript

open Script (Host Outcome)

/-! ### The world -/

/-- Why a file cannot be read. -/
inductive ReadError
  | notFound
  | notDirectory
  | isDirectory
  | permission
  | notText
  | other (reason : String)
deriving DecidableEq, Repr

/-- The reason in words. -/
def ReadError.message : ReadError → String
  | notFound => "No such file or directory (os error 2)"
  | permission => "Permission denied (os error 13)"
  | notDirectory => "Not a directory (os error 20)"
  | isDirectory => "Is a directory (os error 21)"
  | notText => "stream did not contain valid UTF-8"
  | other reason => reason

/-- What the program needs of the world around it. -/
structure World (m : Type → Type) where
  /-- The configuration file that the environment names. -/
  namedConfig : Option String
  /-- The configuration file of the user. -/
  userConfig : Option String
  inputIsTerminal : Bool
  outputIsTerminal : Bool
  exists? : String → m Bool
  fileText : String → m (Except ReadError String)
  inputText : m (Except ReadError String)
  /-- Writes to the output. -/
  write : String → m Unit
  /-- Writes a line of messages. -/
  complain : String → m Unit
  /-- Waits for a key, or gives the reason to stop. -/
  waitKey : m (Option String)
  sleep : (milliseconds : Nat) → m Unit

namespace Program

variable {m : Type → Type} [Monad m]

/-! ### Configuration -/

/-- The places that a configuration is searched in, the first one first. -/
def configPlaces (w : World m) : List String :=
  w.namedConfig.toList ++ w.userConfig.toList ++ ["./.vnsrc"]

/-- The first of some files that exists. -/
def firstExisting (w : World m) : List String → m (Option String)
  | [] => return none
  | path :: rest => do if ← w.exists? path then return some path else firstExisting w rest

/-- The configuration file to read. -/
def configPath (w : World m) : ConfigChoice → m (Option String)
  | .search => firstExisting w (configPlaces w)
  | .skip => return none
  | .file path => return some path

/-- The configuration and its problems in words. A file that was asked for must be readable. -/
def loadConfig (w : World m) (choice : ConfigChoice) :
    m (Except String (Config × List String)) := do
  match ← configPath w choice with
  | none => return .ok ({}, [])
  | some path =>
    match ← w.fileText path with
    | .ok source =>
      let (config, problems) := Config.read source
      return .ok (config, problems.map fun p => path ++ ": " ++ p.show)
    | .error e =>
      let problem := path ++ ": " ++ e.message
      match choice with
      | .file _ => return .error problem
      | _ => return .ok ({}, [problem])

/-- The level of messages: the switches come before the configuration. -/
def logLevel (switches : Switches) (config : Config) : LogLevel :=
  if switches.debug then .debug else if switches.quiet then .error else config.logLevel

/-! ### Scripts -/

/-- Shows a record if the level allows it. -/
def showRecord (w : World m) (level : LogLevel) (r : Record) : m Unit :=
  match r.line? level with
  | some line => w.complain line
  | none => return ()

/-- Does what an event asks for. -/
def perform (w : World m) (event : Script.Event) : StateT Console m (Option String) := do
  let console ← get
  w.write (console.render event)
  set (console.after event)
  match event with
  | .waitKey => if console.settings.autoAdvance then return none else w.waitKey
  | .wait milliseconds =>
    let time := console.scaledWait milliseconds
    if time = 0 then return none
    else
      w.sleep time
      return none
  | _ => return none

/-- The host that shows a script on a console. -/
def host (w : World m) (level : LogLevel) (catalog : Catalog) : Host (StateT Console m) where
  perform := perform w
  tell r := StateT.lift (showRecord w level (r.record catalog))

/-- A text at the right of a column. -/
def padLeft (width : Nat) (s : String) : String :=
  String.ofList (List.replicate (width - s.length) ' ') ++ s

/-- The listing of a script: its commands and its labels. -/
def listing (script : Script) : String :=
  let commands := script.queue.commands.toList.zipIdx.map fun (command, id) =>
    padLeft 5 (Script.showId id) ++ "  " ++ command.show ++ "\n"
  let labels := script.labels.toList.map fun l =>
    "label " ++ Text.quote l.name ++ " -> " ++ Script.showId l.id ++ "\n"
  String.join (commands ++ labels)

/-- Lists the commands of a script. -/
def dump (w : World m) (level : LogLevel) (name source : String) (s : Session) : m UInt32 := do
  let (reports, result) := s.read source
  reports.forM fun r => showRecord w level (r.record s.catalog)
  match result with
  | .error e =>
    w.complain ("vns: " ++ name ++ ": syntax error at " ++ e.message)
    return 2
  | .ok script =>
    w.write (listing script)
    return if (s.addReports reports).log.hasErrors then 1 else 0

/-- Ends the program: its exit status, and a message if something went wrong. -/
def conclude (w : World m) (name : String) (outcome : Outcome) : m UInt32 := do
  let problem := outcome.problem?.getD ""
  match outcome with
  | .finished => return 0
  | .malformed _ =>
    w.complain ("vns: " ++ name ++ ": " ++ problem)
    return 2
  | .rejected _ =>
    w.complain ("vns: " ++ name ++ ": " ++ problem)
    return 1
  | .interrupted _ | .unfinished =>
    w.complain ("vns: " ++ problem)
    return 130

/-- The settings of the console. Without a terminal there are no keys to wait for. -/
def consoleSettings (w : World m) (config : Config) : ConsoleSettings :=
  let settings := ConsoleSettings.ofConfig config w.outputIsTerminal
  if w.inputIsTerminal && w.outputIsTerminal then settings
  else { settings with autoAdvance := true }

/-- Shows or lists a script. -/
def play (w : World m) (steps : Nat) (arguments : Arguments) (config : Config)
    (name source : String) : m UInt32 := do
  let level := logLevel arguments.switches config
  let session : Session := { strict := config.strict || arguments.switches.strict }
  if arguments.switches.dump then dump w level name source session
  else
    let console : Console := { settings := consoleSettings w config }
    let ((outcome, _), _) ←
      (session.execute (host w level session.catalog) steps source).run console
    conclude w name outcome

/-- The usage of the program. -/
def usage : List String :=
  ["Usage: vns [-d] [-q] [-s] [-f[<file>]] [--dump] <script>",
    "       vns [-d] [-q] [-s] [-f[<file>]] [--dump] -"]

/-- Runs the program, for at most `steps` commands of the script, and gives its exit status. -/
def run (w : World m) (steps : Nat) (argv : List String) : m UInt32 := do
  match Arguments.read argv with
  | .error e =>
    (("vns: " ++ e.message) :: usage).forM w.complain
    return 2
  | .ok arguments =>
    match ← loadConfig w arguments.config with
    | .error problem =>
      w.complain ("vns: " ++ problem)
      return 1
    | .ok (config, problems) =>
      let level := logLevel arguments.switches config
      problems.forM fun p => showRecord w level (.note .warn p)
      let name := arguments.script.name
      let source ← match arguments.script with
        | .stdin => w.inputText
        | .file path => w.fileText path
      match source with
      | .error e =>
        w.complain ("vns: " ++ name ++ ": " ++ e.message)
        return 1
      | .ok source =>
        showRecord w level
          (.note .debug ("loaded " ++ name ++ " (" ++ toString source.utf8ByteSize ++ " bytes)"))
        play w steps arguments config name source

end Program
end NovelScript
