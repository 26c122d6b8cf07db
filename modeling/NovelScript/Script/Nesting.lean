import NovelScript.Report
import NovelScript.Script.Queue

/-!
The conditionals of a script. The commands are flat: `if`, `elif`, `else` and `endif` mark where
branches begin and end. They are read here with a stack of the conditionals that are open, which
gives each conditional the list of its own marks, and a finding for every fault.
-/

namespace NovelScript.Script

/-- The marks that belong to the innermost open conditional. -/
inductive Mark
  | elif | else | endIf
deriving DecidableEq, Repr

/-- The tag that a mark is written as. -/
def Mark.tag : Mark → String
  | elif => "elif"
  | «else» => "else"
  | endIf => "endif"

/-- A conditional whose end has not been read, and its marks with the last one first. -/
structure OpenIf where
  id : CommandId
  marks : List (CommandId × Mark) := []
deriving DecidableEq, Repr

/-- What the commands read so far tell. -/
structure Nesting where
  /-- The open conditionals with the innermost first. -/
  stack : List OpenIf := []
  /-- The faults in the order they were found, and the command of each. -/
  faults : Array (Finding × CommandId) := #[]
  /-- The sound conditionals and the marks of each. -/
  related : Array (CommandId × List CommandId) := #[]

namespace Nesting

/-- What is wrong with the order of the marks of a conditional: there may be one `else`, and no
`elif` behind it. -/
def fault? (marks : List (CommandId × Mark)) : Option (Finding × CommandId) :=
  match marks.dropWhile (·.2 ≠ .else) with
  | [] => none
  | _ :: behind =>
    match behind.find? (·.2 = .else) with
    | some (id, _) => some (.multipleElse, id)
    | none => (behind.find? (·.2 = .elif)).map fun (id, _) => (.elifAfterElse, id)

/-- Closes a conditional with all its marks. -/
def close (id : CommandId) (marks : List (CommandId × Mark)) (n : Nesting) : Nesting :=
  match fault? marks with
  | some fault => { n with faults := n.faults.push fault }
  | none => { n with related := n.related.push (id, marks.map Prod.fst) }

/-- Reads a mark. -/
def mark (id : CommandId) (m : Mark) (n : Nesting) : Nesting :=
  match n.stack with
  | [] => { n with faults := n.faults.push (.strayBranch m.tag, id) }
  | innermost :: outer =>
    let marks := (id, m) :: innermost.marks
    if m = .endIf then { n with stack := outer }.close innermost.id marks.reverse
    else { n with stack := ⟨innermost.id, marks⟩ :: outer }

/-- Reads a command. -/
def read (n : Nesting) (id : CommandId) (command : Command) : Nesting :=
  match command with
  | .if _ _ => { n with stack := ⟨id, []⟩ :: n.stack }
  | .elif _ => n.mark id .elif
  | .else => n.mark id .else
  | .endIf => n.mark id .endIf
  | _ => n

/-- Reads commands, the first of which has the number `id`. -/
def readAll (n : Nesting) (id : CommandId) : List Command → Nesting
  | [] => n
  | command :: rest => (n.read id command).readAll (id + 1) rest

/-- What all commands of a queue tell. A conditional that is still open is a fault. -/
def ofQueue (q : Queue) : Nesting :=
  let n := readAll {} 0 q.commands.toList
  { n with
    stack := []
    faults := n.faults ++ n.stack.toArray.map fun o => (.unterminatedIf, o.id) }

end Nesting

/-- A command with the marks that belong to it. -/
def Command.relate (related : List CommandId) : Command → Command
  | .if condition _ => .if condition related
  | command => command

/-- The queue with the marks of every sound conditional. -/
def Queue.relate (q : Queue) (n : Nesting) : Queue :=
  { q with
    commands := n.related.foldl (fun cs (id, related) => cs.modify id (Command.relate related))
      q.commands }

end NovelScript.Script
