import NovelScript.Script.Queue
import NovelScript.Text.Position

/-!
A script that has been read: its commands, its labels and where they came from.
-/

namespace NovelScript

/-- A place of a script that can be jumped to. -/
structure Script.Label where
  name : String
  headline : String
  id : Script.CommandId
deriving DecidableEq, Repr

/-- A script. -/
structure Script where
  queue : Script.Queue := {}
  /-- The labels in the order of their commands, no two of one name. -/
  labels : Array Script.Label := #[]
  /-- The places of the commands that were read; a host may have added others behind them. -/
  positions : Array Position := #[]
  /-- The number of faults in the conditionals. -/
  structuralErrors : Nat := 0
deriving Repr

namespace Script

/-- The place of a command. -/
def position? (script : Script) (id : CommandId) : Option Position := script.positions[id]?

/-- Whether a label has the name. -/
def hasLabel (script : Script) (name : String) : Bool := script.labels.any (·.name = name)

end Script
end NovelScript
