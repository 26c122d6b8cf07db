/-!
The arguments of the command line. Switches may stand before and behind the script; letters may
share a dash.
-/

namespace NovelScript

/-- Which configuration file to read. -/
inductive ConfigChoice
  /-- The first one found in the usual places. -/
  | search
  /-- None. -/
  | skip
  | file (path : String)
deriving DecidableEq, Repr

/-- Where the script comes from. -/
inductive ScriptSource
  | stdin
  | file (path : String)
deriving DecidableEq, Repr

/-- How messages name a script. -/
def ScriptSource.name : ScriptSource → String
  | stdin => "<stdin>"
  | file path => path

/-- What is on or off. -/
structure Switches where
  debug : Bool := false
  quiet : Bool := false
  strict : Bool := false
  dump : Bool := false
deriving DecidableEq, Repr

/-- A switch. -/
inductive Switch
  | debug | quiet | strict | dump
deriving DecidableEq, Repr

namespace Switch

/-- The switch of a letter. -/
def ofLetter? : Char → Option Switch
  | 'd' => some debug
  | 'q' => some quiet
  | 's' => some strict
  | _ => none

/-- The switch of a word. -/
def ofWord? : String → Option Switch
  | "debug" => some debug
  | "quiet" => some quiet
  | "strict" => some strict
  | "dump" => some dump
  | _ => none

/-- Turns a switch on. -/
def turnOn (switches : Switches) : Switch → Switches
  | debug => { switches with debug := true }
  | quiet => { switches with quiet := true }
  | strict => { switches with strict := true }
  | dump => { switches with dump := true }

end Switch

/-- Why the arguments cannot be used. -/
inductive UsageError
  | unknownOption (option : String)
  | noScript
  | tooMany (count : Nat)
deriving DecidableEq, Repr

/-- A fault of the arguments in words. -/
def UsageError.message : UsageError → String
  | unknownOption option => "unknown option: " ++ option
  | noScript => "no script given"
  | tooMany count => "too many arguments (" ++ toString count ++ ")"

/-- The arguments. -/
structure Arguments where
  config : ConfigChoice := .search
  switches : Switches := {}
  script : ScriptSource := .stdin
deriving DecidableEq, Repr

namespace Arguments

/-- What has been read of the arguments. -/
structure Partial where
  config : ConfigChoice := .search
  switches : Switches := {}
  /-- The arguments that are no options. -/
  others : List String := []
deriving DecidableEq, Repr

/-- Whether an argument begins with a dash. -/
def hasDash (argument : String) : Bool := argument.toList.head? = some '-'

/-- Reads the letters behind a dash. An `f` ends them; what stands behind it is given back. -/
def readLetters : List Char → Switches → Except UsageError (Switches × Option (List Char))
  | [], switches => .ok (switches, none)
  | c :: cs, switches =>
    if c = 'f' then .ok (switches, some cs)
    else
      match Switch.ofLetter? c with
      | some switch => readLetters cs (switch.turnOn switches)
      | none => .error (.unknownOption (String.ofList ['-', c]))

/-- Reads arguments behind those read before. The file of a bare `-f` is the next argument,
unless that has a dash or is the last one. -/
def readAll (p : Partial) : List String → Except UsageError Partial
  | [] => .ok p
  | argument :: rest =>
    match argument.toList with
    | ['-', '-'] => .ok { p with others := p.others ++ rest }
    | '-' :: '-' :: word =>
      match Switch.ofWord? (String.ofList word) with
      | some switch => readAll { p with switches := switch.turnOn p.switches } rest
      | none => .error (.unknownOption argument)
    | '-' :: letter :: letters =>
      match readLetters (letter :: letters) p.switches with
      | .error e => .error e
      | .ok (switches, none) => readAll { p with switches } rest
      | .ok (switches, some (c :: cs)) =>
        readAll { p with switches, config := .file (String.ofList (c :: cs)) } rest
      | .ok (switches, some []) =>
        match rest with
        | file :: next :: others =>
          if hasDash file then readAll { p with switches, config := .skip } (file :: next :: others)
          else readAll { p with switches, config := .file file } (next :: others)
        | others => readAll { p with switches, config := .skip } others
    | _ => readAll { p with others := p.others ++ [argument] } rest

/-- Reads the arguments. One of them must be the script. -/
def read (arguments : List String) : Except UsageError Arguments := do
  let p ← readAll {} arguments
  match p.others with
  | [] => .error .noScript
  | ["-"] => .ok ⟨p.config, p.switches, .stdin⟩
  | [path] => .ok ⟨p.config, p.switches, .file path⟩
  | others => .error (.tooMany others.length)

end Arguments
end NovelScript
