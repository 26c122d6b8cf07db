import NovelScript.Script.Builder
import NovelScript.Script.Run
import NovelScript.Script.Token.Lexer

/-!
A session: the variables and the log that one script after the other works with.
-/

namespace NovelScript

open Script (Host Outcome)

/-- What lasts from one script to the next. -/
structure Session where
  heap : Expr.Heap := .single
  log : Log := {}
  catalog : Catalog := {}
  /-- A script with any error is not run. -/
  strict : Bool := false

namespace Session

/-- The variables of the session. -/
def bindings (s : Session) : Expr.Bindings := s.heap.bindings Expr.Heap.root

/-- The value of a variable. -/
def get? (name : String) (s : Session) : Option Expr.Value := s.heap.lookup? name Expr.Heap.root

/-- Sets a variable. -/
def set (name : String) (value : Expr.Value) (s : Session) : Session :=
  { s with heap := s.heap.set name value Expr.Heap.root }

/-- Adds reports to the log. -/
def addReports (reports : List Report) (s : Session) : Session :=
  { s with log := s.log.addReports s.catalog reports }

/-- Reads a script, among the variables of the session: what is to be reported, and the script
or the reason why there is none. -/
def read (source : String) (s : Session) : List Report × Except Script.SyntaxError Script :=
  match Script.tokens source with
  | .error e => ([], .error e)
  | .ok tokens =>
    let (script, findings) := Script.ofTokens s.bindings.names tokens
    (.parsing tokens.length :: findings.map fun (f, place) => .finding f place, .ok script)

/-- Tells the host what was reported, and adds it to the log. -/
def tell {m : Type → Type} [Monad m] (host : Host m) (reports : List Report) (s : Session) :
    m Session := do
  reports.forM host.tell
  return s.addReports reports

/-- Runs a script from its cursor on, for at most `steps` commands. -/
def run {m : Type → Type} [Monad m] (host : Host m) (steps : Nat) (script : Script)
    (s : Session) : m (Outcome × Script × Session) := do
  let s ← s.tell host [.running script.queue.size]
  let (outcome, machine, reports) ← Script.Machine.run host steps { script, heap := s.heap } #[]
  return (outcome, machine.script,
    { s with heap := machine.heap, log := s.log.addReports s.catalog reports.toList })

/-- The number of errors among reports. -/
def errorCount (reports : List Report) : Nat := (reports.filter Report.isError).length

/-- Reads a script and runs it, unless its conditionals are broken or, in a strict session, it
has any error. -/
def execute {m : Type → Type} [Monad m] (host : Host m) (steps : Nat) (source : String)
    (s : Session) : m (Outcome × Session) := do
  match s.read source with
  | (reports, .error e) =>
    return (.malformed e, ← s.tell host (reports ++ [.malformed e]))
  | (reports, .ok script) =>
    let s ← s.tell host reports
    let errors := errorCount reports
    if 0 < script.structuralErrors || s.strict && 0 < errors then return (.rejected errors, s)
    else
      let (outcome, _, s) ← s.run host steps script
      return (outcome, s)

end Session
end NovelScript
