import NovelScript.Report
import NovelScript.Script.Basic

/-!
Running a script. A machine takes one command after the other off the queue; a command changes
variables, moves the cursor, or asks the host to show something, and asking is the last thing it
does.
-/

namespace NovelScript.Script

/-! ### The host -/

/-- What a host is asked to do. -/
inductive Event
  | text (text : String)
  | newLine
  | waitKey
  | newPage
  | wait (milliseconds : Int32)
  | indent (count : Nat)
  | font (font : Font)
deriving DecidableEq, Repr

/-- Whoever shows a script. -/
structure Host (m : Type → Type) where
  /-- Does what an event asks for, or gives the reason to stop. -/
  perform : Event → m (Option String)
  /-- Takes notice of a report. -/
  tell : Report → m Unit

/-- How running a script ended. -/
inductive Outcome
  | finished
  | malformed (error : SyntaxError)
  /-- The script was not run because of errors found in it. -/
  | rejected (errors : Nat)
  | interrupted (reason : String)
  /-- The number of steps was not enough. -/
  | unfinished
deriving DecidableEq, Repr

/-- Why a script did not run to its end, in words. -/
def Outcome.problem? : Outcome → Option String
  | malformed e => some ("syntax error at " ++ e.message)
  | rejected errors => some ("script rejected: " ++ toString errors ++ " error(s)")
  | interrupted reason => some ("interrupted: " ++ reason)
  | finished | unfinished => none

/-! ### The machine -/

/-- A script that is being run. -/
structure Machine where
  script : Script
  heap : Expr.Heap
  /-- What the last step reported. -/
  reports : Array Report := #[]

namespace Machine

/-- Adds a report. -/
def report (r : Report) (m : Machine) : Machine := { m with reports := m.reports.push r }

/-- The value of an expression among the variables of the script. A failure is reported. -/
def evaluate (source : String) (place : Option Position) (m : Machine) :
    Option Expr.Value × Machine :=
  let failed (failure : EvalFailure) (m : Machine) : Option Expr.Value × Machine :=
    (none, m.report (.finding (.evaluationFailed source failure) place))
  match (Expr.evalText source Expr.Heap.root).run m.heap with
  | (.ok (.error fault), heap) => failed (.fault fault) { m with heap }
  | (.ok value, heap) => (some value, { m with heap })
  | (.error errors, heap) => failed (.malformed errors) { m with heap }

/-- Whether a condition holds. One that fails does not. -/
def condition (source : String) (place : Option Position) (m : Machine) : Bool × Machine :=
  let (value, m) := m.evaluate source place
  (value.any Expr.Value.isTruthy, m)

/-- The time that a variable holds. -/
def findTime (heap : Expr.Heap) (name : String) : Except Finding Int32 :=
  match heap.lookup? name Expr.Heap.root with
  | some (.integer n) => .ok n
  | some value => .error (.waitNotInteger name value.type)
  | none => .error (.undefinedVariable name)

/-- Sets variables one after the other. One whose expression fails stays as it was. -/
def define (place : Option Position) (m : Machine) (definitions : List Definition) : Machine :=
  definitions.foldl
    (fun m d =>
      match m.evaluate d.source place with
      | (some value, m) =>
        { m.report (.assigned d.name value.show) with
          heap := m.heap.set d.name value Expr.Heap.root }
      | (none, m) => m)
    m

/-- What follows from a command, besides its effect on the machine. -/
inductive Effect
  | nothing
  | ask (event : Event)
  /-- Go on with the command. -/
  | goTo (id : CommandId)
  /-- Go on behind the command. -/
  | goBehind (id : CommandId)
deriving DecidableEq, Repr

/-- Looks for the branch to take behind a condition that does not hold: the first one among the
marks whose own condition holds, or the last. -/
def branch (m : Machine) : List CommandId → Effect × Machine
  | [] => (.nothing, m)
  | id :: rest =>
    match m.script.queue.get? id with
    | some (.elif condition) =>
      let (holds, m) := m.condition condition (m.script.position? id)
      if holds then (.goBehind id, m) else m.branch rest
    | some .else | some .endIf => (.goBehind id, m)
    | _ => m.branch rest

/-- Waits for a time; a time that is not known is reported. -/
def wait (id : CommandId) (time : WaitTime) (place : Option Position) (m : Machine) :
    Effect × Machine :=
  let (result, time) := time.resolve (findTime m.heap)
  let queue := m.script.queue.replace id (.waitTime time)
  let m := { m with script := { m.script with queue } }
  match result with
  | .ok milliseconds => (.ask (.wait milliseconds), m)
  | .error finding => (.nothing, m.report (.finding finding place))

/-- Executes a command. The end of a branch that was taken is where the next one begins. -/
def execute (id : CommandId) (command : Command) (m : Machine) : Effect × Machine :=
  let place := m.script.position? id
  match command with
  | .printText text => (.ask (.text text), m)
  | .newLine => (.ask .newLine, m)
  | .waitKey => (.ask .waitKey, m)
  | .newPage => (.ask .newPage, m)
  | .indent count => (.ask (.indent count), m)
  | .font font => (.ask (.font font), m)
  | .waitTime time => m.wait id time place
  | .define definitions => (.nothing, m.define place definitions)
  | .eval source => (.nothing, (m.evaluate source place).2)
  | .embed source =>
    match m.evaluate source place with
    | (some value, m) => (.ask (.text value.show), m)
    | (none, m) => (.nothing, m)
  | .jump target =>
    match m.script.queue.findLabel? target with
    | some label => (.goTo label, m.report (.jumping target label))
    | none => (.nothing, m.report (.jumpMissing target))
  | .if condition related =>
    let (holds, m) := m.condition condition place
    if holds then (.nothing, m) else m.branch related
  | .elif _ | .else =>
    match m.script.queue.endOf? id with
    | some last => (.goBehind last, m)
    | none => (.nothing, m)
  | .label _ _ | .endIf => (.nothing, m)

/-- The queue with the cursor moved as a command asks for. -/
def move (effect : Effect) (q : Queue) : Queue :=
  match effect with
  | .nothing | .ask _ => q
  | .goTo id => (q.seek? id).getD q
  | .goBehind id => ((q.seek? id).bind Queue.dequeue?).elim q Prod.snd

/-- Executes the next command, if there is one: what is asked of the host, and the machine
behind it. -/
def next? (m : Machine) : Option (Option Event × Machine) :=
  m.script.queue.dequeue?.map fun ((id, command), queue) =>
    let taken : Machine := { m with script := { m.script with queue }, reports := #[] }
    let (effect, done) := taken.execute id command
    let moved := { done with script := { done.script with queue := move effect done.script.queue } }
    match effect with
    | .ask event => (some event, moved)
    | _ => (none, moved)

/-- Tells the host what the last step reported. -/
def tellAll {m : Type → Type} [Monad m] (host : Host m) (reports : Array Report) : m Unit :=
  reports.toList.forM host.tell

/-- Executes at most `n` commands from the cursor on, adding what is reported to `log`. -/
def run {m : Type → Type} [Monad m] (host : Host m) : Nat → Machine → Array Report →
    m (Outcome × Machine × Array Report)
  | 0, machine, log => pure (.unfinished, machine, log)
  | n + 1, machine, log =>
    match machine.next? with
    | none => do
      host.tell .finished
      pure (.finished, machine, log.push .finished)
    | some (event?, machine) => do
      tellAll host machine.reports
      let log := log ++ machine.reports
      match event? with
      | none => run host n machine log
      | some event =>
        match ← host.perform event with
        | none => run host n machine log
        | some reason => pure (.interrupted reason, machine, log)

end Machine
end NovelScript.Script
