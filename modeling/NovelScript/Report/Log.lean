import NovelScript.Text.Position

/-!
The log: what the author of a script is told, and beside it notes on the work itself.
-/

namespace NovelScript

/-! ### Entries -/

/-- How serious an entry is. -/
inductive Severity
  | information | warning | error
deriving DecidableEq, Repr

namespace Severity

/-- How entries name a severity. -/
def name : Severity → String
  | information => "info"
  | warning => "warning"
  | error => "error"

/-- The rank of a severity; the most serious has the highest. -/
def rank : Severity → Nat
  | information => 0
  | warning => 1
  | error => 2

end Severity

/-- Something the author of a script is told. -/
structure Entry where
  severity : Severity
  message : String
  position : Option Position
deriving DecidableEq, Repr

/-- An entry as text. -/
def Entry.show (e : Entry) : String :=
  match e.position with
  | some p => e.severity.name ++ " at " ++ toString p ++ ": " ++ e.message
  | none => e.severity.name ++ ": " ++ e.message

/-! ### Levels -/

/-- How much of the log is shown. -/
inductive LogLevel
  | off | error | warn | info | debug | trace
deriving DecidableEq, Repr

namespace LogLevel

/-- How settings and lines name a level. -/
def name : LogLevel → String
  | off => "OFF"
  | error => "ERROR"
  | warn => "WARN"
  | info => "INFO"
  | debug => "DEBUG"
  | trace => "TRACE"

/-- The rank of a level; the one that shows most has the highest. -/
def rank : LogLevel → Nat
  | off => 0
  | error => 1
  | warn => 2
  | info => 3
  | debug => 4
  | trace => 5

/-- All levels. -/
def all : List LogLevel := [off, error, warn, info, debug, trace]

/-- The level that entries of a severity are shown at. -/
def ofSeverity : Severity → LogLevel
  | .information => info
  | .warning => warn
  | .error => error

end LogLevel

/-! ### The log -/

/-- A record of the log: an entry, or a note for whoever watches the work. -/
inductive Record
  | entry (e : Entry)
  | note (level : LogLevel) (text : String)
deriving DecidableEq, Repr

namespace Record

/-- The level that a record is shown at. -/
def level : Record → LogLevel
  | entry e => .ofSeverity e.severity
  | note level _ => level

/-- A record as text. -/
def text : Record → String
  | entry e => e.show
  | note _ text => text

/-- The entry that a record is. -/
def entry? : Record → Option Entry
  | entry e => some e
  | note _ _ => none

/-- The line that shows a record up to a level. -/
def line? (shown : LogLevel) (r : Record) : Option String :=
  if r.level.rank ≤ shown.rank then some ("[" ++ r.level.name ++ "] " ++ r.text) else none

end Record

/-- All records, in order. -/
structure Log where
  records : Array Record := #[]
deriving Repr

namespace Log

/-- Adds a record. -/
def push (r : Record) (log : Log) : Log := ⟨log.records.push r⟩

/-- Adds an entry. -/
def add (severity : Severity) (message : String) (position : Option Position) (log : Log) : Log :=
  log.push (.entry ⟨severity, message, position⟩)

/-- The entries, in order. -/
def entries (log : Log) : List Entry := log.records.toList.filterMap Record.entry?

/-- The number of entries of a severity. -/
def count (severity : Severity) (log : Log) : Nat :=
  (log.entries.filter (·.severity = severity)).length

/-- Whether there is an error. -/
def hasErrors (log : Log) : Bool := 0 < log.count .error

/-- The entries at least as serious as `least`, each in a line of its own. -/
def history (least : Severity) (log : Log) : String :=
  String.join ((log.entries.filter fun e => least.rank ≤ e.severity.rank).map (·.show ++ "\n"))

@[simp] theorem entries_push_entry (e : Entry) (log : Log) :
    (log.push (.entry e)).entries = log.entries ++ [e] := by
  simp [push, entries, Record.entry?]

@[simp] theorem entries_push_note (level : LogLevel) (text : String) (log : Log) :
    (log.push (.note level text)).entries = log.entries := by
  simp [push, entries, Record.entry?]

end Log
end NovelScript
