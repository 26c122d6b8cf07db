import NovelScript.Script.Command

/-!
The queue of commands. Commands are only ever added at its end, and taking one off moves a cursor
past it, so that a jump can go back.
-/

namespace NovelScript.Script

/-- Commands and a cursor among them. -/
structure Queue where
  commands : Array Command := #[]
  /-- The command that is taken next; one past the last at the end. -/
  cursor : Nat := 0
deriving Repr

namespace Queue

/-- The number of commands. -/
def size (q : Queue) : Nat := q.commands.size

/-- Whether there are no commands. -/
def isEmpty (q : Queue) : Bool := q.commands.isEmpty

/-- The command with a number. -/
def get? (q : Queue) (id : CommandId) : Option Command := q.commands[id]?

/-- Adds a command at the end, and gives its number. -/
def enqueue (command : Command) (q : Queue) : CommandId × Queue :=
  (q.size, { q with commands := q.commands.push command })

/-- Takes the command at the cursor, unless the end is reached. -/
def dequeue? (q : Queue) : Option ((CommandId × Command) × Queue) :=
  (q.get? q.cursor).map fun command => ((q.cursor, command), { q with cursor := q.cursor + 1 })

/-- Moves the cursor to a command, if there is one with the number. -/
def seek? (target : CommandId) (q : Queue) : Option Queue :=
  if target < q.size then some { q with cursor := target } else none

/-- Moves the cursor to the first command. -/
def rewind (q : Queue) : Queue := { q with cursor := 0 }

/-- Replaces the command with a number. -/
def replace (id : CommandId) (command : Command) (q : Queue) : Queue :=
  { q with commands := q.commands.setIfInBounds id command }

/-- The numbers of the commands of a kind, in order. -/
def findAll (kind : CommandKind) (q : Queue) : List CommandId :=
  (List.range q.size).filter fun id => (q.get? id).map Command.kind = some kind

/-- The first command of a kind that the cursor has not passed. -/
def findNext? (kind : CommandKind) (q : Queue) : Option CommandId :=
  (List.range' q.cursor (q.size - q.cursor)).find? fun id =>
    (q.get? id).map Command.kind = some kind

/-- The first label with a name. -/
def findLabel? (name : String) (q : Queue) : Option CommandId :=
  (q.findAll .label).find? fun id =>
    match q.get? id with
    | some (.label n _) => n = name
    | _ => false

/-- The end of the conditional that has `branch` among its marks. -/
def endOf? (branch : CommandId) (q : Queue) : Option CommandId :=
  (q.findAll .if).findSome? fun id =>
    match q.get? id with
    | some (.if _ related) => if branch ∈ related then related.getLast? else none
    | _ => none

end Queue
end NovelScript.Script
