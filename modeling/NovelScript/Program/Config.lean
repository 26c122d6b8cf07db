import NovelScript.Report.Log
import NovelScript.Text.Numeral
import NovelScript.Text.Quoted

/-!
Configuration files: one setting in a line, between comments and empty lines. A line that cannot
be read is reported and changes nothing.
-/

namespace NovelScript

/-- The settings. -/
structure Config where
  strict : Bool := false
  logLevel : LogLevel := .warn
  /-- Spaces in one step of indentation. -/
  indentWidth : Nat := 2
  /-- Percentage of every waiting time. -/
  waitScale : Nat := 100
  /-- Pauses end by themselves. -/
  autoAdvance : Bool := false
  /-- Whether text is coloured; if it is not set, on terminals only. -/
  color : Option Bool := none
deriving DecidableEq, Repr

namespace Config

/-! ### Problems -/

/-- Why a line changes nothing. -/
inductive Problem
  | noSetting (line : String)
  | unknownSetting (key : String)
  | notBool (key value : String)
  | notLevel (value : String)
  | notWidth (value : String)
  | notPercentage (value : String)
deriving DecidableEq, Repr

/-- A problem in words. -/
def Problem.message : Problem → String
  | noSetting line => "expected `key = value`, got " ++ Text.quote line
  | unknownSetting key => "unknown setting " ++ Text.quote key
  | notBool key value => key ++ ": expected true or false, got " ++ Text.quote value
  | notLevel value => "log_level: unknown level " ++ Text.quote value
  | notWidth value => "indent_width: expected a number, got " ++ Text.quote value
  | notPercentage value => "wait_scale: expected a percentage, got " ++ Text.quote value

/-- A problem and the number of its line, counted from one. -/
structure LineProblem where
  line : Nat
  problem : Problem
deriving DecidableEq, Repr

/-- A problem in words behind its line. -/
def LineProblem.show (p : LineProblem) : String :=
  "line " ++ toString p.line ++ ": " ++ p.problem.message

/-! ### Settings -/

/-- A truth value, in any of its spellings. -/
def readBool? (value : String) : Option Bool :=
  let word := Text.lowercase value
  if word ∈ ["true", "on", "yes", "1"] then some true
  else if word ∈ ["false", "off", "no", "0"] then some false
  else none

/-- A level, in letters of either case. -/
def readLevel? (value : String) : Option LogLevel :=
  LogLevel.all.find? fun level => Text.lowercase level.name = Text.lowercase value

/-- A value, or else the problem. -/
def orProblem {α : Type} (value? : Option α) (problem : Problem) : Except Problem α :=
  match value? with
  | some a => .ok a
  | none => .error problem

/-- Changes one setting. -/
def apply (key value : String) (c : Config) : Except Problem Config :=
  let bool : Except Problem Bool := orProblem (readBool? value) (.notBool key value)
  match key with
  | "strict" => bool.map fun b => { c with strict := b }
  | "auto_advance" => bool.map fun b => { c with autoAdvance := b }
  | "color" => bool.map fun b => { c with color := some b }
  | "log_level" =>
    (orProblem (readLevel? value) (.notLevel value)).map fun l => { c with logLevel := l }
  | "indent_width" =>
    (orProblem (Text.readWord64? value) (.notWidth value)).map fun n => { c with indentWidth := n }
  | "wait_scale" =>
    (orProblem (Text.readWord32? value) (.notPercentage value)).map fun n =>
      { c with waitScale := n }
  | _ => .error (.unknownSetting key)

/-! ### Lines -/

/-- A value without the double quotes around it, if there are two. -/
def unquote (cs : List Char) : List Char :=
  match cs with
  | '"' :: rest => if rest.getLast? = some '"' then rest.dropLast else cs
  | _ => cs

/-- What a line holds: nothing, or a key and a value, or neither. -/
def readLine? (line : List Char) : Option (Except Problem (String × String)) :=
  let line := Text.trimBlanks line
  match line with
  | [] => none
  | first :: _ =>
    if first = ';' || first = '#' then none
    else
      match line.dropWhile (· ≠ '=') with
      | [] => some (.error (.noSetting (String.ofList line)))
      | _ :: value => some (.ok
          (String.ofList (Text.trimBlanks (line.takeWhile (· ≠ '='))),
            String.ofList (unquote (Text.trimBlanks value))))

/-- The lines of a text. The last one may lack its line feed. -/
def lines : List Char → List (List Char)
  | [] => []
  | c :: cs =>
    if c = '\n' then [] :: lines cs
    else
      match lines cs with
      | [] => [[c]]
      | line :: rest => (c :: line) :: rest

/-- Reads lines, the first of which has the number `n`, into the settings `c`. -/
def readLines (n : Nat) (c : Config) : List (List Char) → Config × List LineProblem
  | [] => (c, [])
  | line :: rest =>
    match readLine? line with
    | none => readLines (n + 1) c rest
    | some (.error problem) =>
      let (final, problems) := readLines (n + 1) c rest
      (final, ⟨n, problem⟩ :: problems)
    | some (.ok (key, value)) =>
      match c.apply key value with
      | .ok changed => readLines (n + 1) changed rest
      | .error problem =>
        let (final, problems) := readLines (n + 1) c rest
        (final, ⟨n, problem⟩ :: problems)

/-- The settings of a text, and its problems. -/
def read (source : String) : Config × List LineProblem := readLines 1 {} (lines source.toList)

end Config
end NovelScript
