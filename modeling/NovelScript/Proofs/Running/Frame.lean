import NovelScript.Proofs.Running.Steps

/-!
What executing a command does not depend on, and what it leaves alone. The cursor and the earlier
reports are not looked at; of the commands at most the time of a pause is changed, which a lookup
has found.
-/

namespace NovelScript.Script
namespace Machine

/-- The machine with the cursor at the command `k`. -/
def moveTo (k : Nat) (machine : Machine) : Machine :=
  { machine with
    script := { machine.script with queue := { machine.script.queue with cursor := k } } }

/-- The machine with reports in front of its own. -/
def behind (earlier : Array Report) (machine : Machine) : Machine :=
  { machine with reports := earlier ++ machine.reports }

@[simp] theorem told_told (machine : Machine) : machine.told.told = machine.told := rfl

theorem behind_told (machine : Machine) : machine.told.behind machine.reports = machine := by
  simp [told, behind]

@[simp] theorem get?_moveTo (j k : Nat) (machine : Machine) :
    (machine.moveTo k).script.queue.get? j = machine.script.queue.get? j := rfl

/-! ### The cursor is not looked at -/

theorem evaluate_moveTo (source : String) (place : Option Position) (k : Nat) (machine : Machine) :
    (machine.moveTo k).evaluate source place =
      ((machine.evaluate source place).1, (machine.evaluate source place).2.moveTo k) := by
  unfold evaluate
  simp only
  rw [show (machine.moveTo k).heap = machine.heap from rfl]
  split <;> rfl

theorem condition_moveTo (source : String) (place : Option Position) (k : Nat)
    (machine : Machine) : (machine.moveTo k).condition source place =
      ((machine.condition source place).1, (machine.condition source place).2.moveTo k) := by
  simp only [condition, evaluate_moveTo]

theorem define_moveTo (place : Option Position) (k : Nat) (definitions : List Definition) :
    ∀ machine : Machine, (machine.moveTo k).define place definitions =
      (machine.define place definitions).moveTo k := by
  induction definitions with
  | nil => exact fun machine => rfl
  | cons d ds ih =>
    intro machine
    simp only [define, List.foldl_cons, evaluate_moveTo]
    generalize machine.evaluate d.source place = result
    obtain ⟨_ | value, after⟩ := result
    · exact ih after
    · exact ih { after.report (.assigned d.name value.show) with
        heap := after.heap.set d.name value Expr.Heap.root }

theorem branch_moveTo (k : Nat) (marks : List CommandId) :
    ∀ machine : Machine, (machine.moveTo k).branch marks =
      ((machine.branch marks).1, (machine.branch marks).2.moveTo k) := by
  induction marks with
  | nil => exact fun machine => rfl
  | cons id rest ih =>
    intro machine
    simp only [branch, get?_moveTo]
    split
    · rw [show (machine.moveTo k).script.position? id = machine.script.position? id from rfl,
        condition_moveTo]
      simp only
      split
      · rfl
      · exact ih _
    · rfl
    · rfl
    · exact ih machine

/-- Executing a command does not depend on the cursor, and leaves it alone. -/
theorem execute_moveTo (id : CommandId) (c : Command) (k : Nat) (machine : Machine) :
    (machine.moveTo k).execute id c =
      ((machine.execute id c).1, (machine.execute id c).2.moveTo k) := by
  have hplace : (machine.moveTo k).script.position? id = machine.script.position? id := rfl
  unfold execute
  rw [hplace]
  cases c with
  | waitTime time =>
    simp only [wait, show (machine.moveTo k).heap = machine.heap from rfl]
    split <;> rfl
  | define definitions => simp only [define_moveTo]
  | eval source => simp only [evaluate_moveTo]
  | embed source =>
    simp only [evaluate_moveTo]
    generalize machine.evaluate source (machine.script.position? id) = result
    obtain ⟨_ | value, after⟩ := result <;> rfl
  | jump target =>
    simp only [show (machine.moveTo k).script.queue.findLabel? target =
      machine.script.queue.findLabel? target from rfl]
    split <;> rfl
  | «if» condition related =>
    simp only [condition_moveTo, branch_moveTo]
    split <;> rfl
  | elif condition =>
    simp only [show (machine.moveTo k).script.queue.endOf? id =
      machine.script.queue.endOf? id from rfl]
    split <;> rfl
  | «else» =>
    simp only [show (machine.moveTo k).script.queue.endOf? id =
      machine.script.queue.endOf? id from rfl]
    split <;> rfl
  | _ => rfl

/-! ### Earlier reports are not looked at -/

theorem report_behind (r : Report) (earlier : Array Report) (machine : Machine) :
    (machine.behind earlier).report r = (machine.report r).behind earlier := by
  simp [report, behind]

theorem evaluate_behind (source : String) (place : Option Position) (earlier : Array Report)
    (machine : Machine) : (machine.behind earlier).evaluate source place =
      ((machine.evaluate source place).1, (machine.evaluate source place).2.behind earlier) := by
  unfold evaluate
  simp only
  rw [show (machine.behind earlier).heap = machine.heap from rfl]
  split
  · exact Prod.ext rfl (report_behind _ earlier { machine with heap := _ })
  · rfl
  · exact Prod.ext rfl (report_behind _ earlier { machine with heap := _ })

theorem condition_behind (source : String) (place : Option Position) (earlier : Array Report)
    (machine : Machine) : (machine.behind earlier).condition source place =
      ((machine.condition source place).1, (machine.condition source place).2.behind earlier) := by
  simp only [condition, evaluate_behind]

theorem branch_behind (earlier : Array Report) (marks : List CommandId) :
    ∀ machine : Machine, (machine.behind earlier).branch marks =
      ((machine.branch marks).1, (machine.branch marks).2.behind earlier) := by
  induction marks with
  | nil => exact fun machine => rfl
  | cons id rest ih =>
    intro machine
    simp only [branch, show (machine.behind earlier).script = machine.script from rfl]
    split
    · rw [condition_behind]
      simp only
      split
      · rfl
      · exact ih _
    · rfl
    · rfl
    · exact ih machine

/-! ### The commands stay -/

theorem script_evaluate (source : String) (place : Option Position) (machine : Machine) :
    (machine.evaluate source place).2.script = machine.script := by
  unfold evaluate
  simp only
  split <;> rfl

theorem script_condition (source : String) (place : Option Position) (machine : Machine) :
    (machine.condition source place).2.script = machine.script :=
  script_evaluate source place machine

theorem script_define (place : Option Position) (definitions : List Definition) :
    ∀ machine : Machine, (machine.define place definitions).script = machine.script := by
  induction definitions with
  | nil => exact fun machine => rfl
  | cons d ds ih =>
    intro machine
    rw [define, List.foldl_cons]
    refine (ih _).trans ?_
    have heval := script_evaluate d.source place machine
    split
    · rename_i value after heq
      rw [heq] at heval
      exact heval
    · rename_i after heq
      rw [heq] at heval
      exact heval

theorem script_branch (marks : List CommandId) :
    ∀ machine : Machine, (machine.branch marks).2.script = machine.script := by
  induction marks with
  | nil => exact fun machine => rfl
  | cons id rest ih =>
    intro machine
    rw [branch]
    split
    · have hcondition := script_condition
      simp only
      split
      · exact script_condition _ _ _
      · exact (ih _).trans (script_condition _ _ _)
    · rfl
    · rfl
    · exact ih machine

/-- **Executing a command changes the script at most in the time of a pause.** -/
theorem script_execute (id : CommandId) (c : Command) (machine : Machine) :
    (machine.execute id c).2.script = machine.script ∨
      ∃ time time', c = .waitTime time ∧ (machine.execute id c).2.script =
        { machine.script with queue := machine.script.queue.replace id (.waitTime time') } := by
  unfold execute
  cases c with
  | waitTime time =>
    refine .inr ⟨time, (time.resolve (findTime machine.heap)).2, rfl, ?_⟩
    simp only [wait]
    split <;> rfl
  | define definitions => exact .inl (script_define _ definitions machine)
  | eval source => exact .inl (script_evaluate source _ machine)
  | embed source =>
    left
    have heval := script_evaluate source (machine.script.position? id) machine
    simp only
    split <;> (rename_i heq; rw [heq] at heval; exact heval)
  | jump target =>
    left
    simp only
    split <;> rfl
  | «if» condition related =>
    left
    simp only
    split
    · exact script_condition _ _ machine
    · exact (script_branch _ _).trans (script_condition _ _ machine)
  | elif condition =>
    left
    simp only
    split <;> rfl
  | «else» =>
    left
    simp only
    split <;> rfl
  | _ => exact .inl rfl

/-! ### A step -/

/-- The machine with the cursor where an effect takes it. -/
def follow (effect : Effect) (machine : Machine) : Machine :=
  { machine with
    script := { machine.script with queue := move effect machine.script.queue } }

/-- The event that an effect asks for. -/
def Effect.event? : Effect → Option Event
  | ask event => some event
  | _ => none

@[simp] theorem follow_nothing (machine : Machine) : machine.follow .nothing = machine := rfl

@[simp] theorem follow_ask (event : Event) (machine : Machine) :
    machine.follow (.ask event) = machine := rfl

theorem follow_goBehind (machine : Machine) {id : Nat} (h : id < machine.script.queue.size) :
    machine.follow (.goBehind id) = machine.moveTo (id + 1) := by
  have hlt : id < machine.script.queue.commands.size := h
  have hget : machine.script.queue.get? id = some machine.script.queue.commands[id] :=
    Array.getElem?_eq_getElem hlt
  simp only [follow, move, Queue.seek?, if_pos h, Option.bind_some, Queue.dequeue?]
  rw [show Queue.get? { machine.script.queue with cursor := id } id =
    machine.script.queue.get? id from rfl, hget]
  rfl

/-- **A step executes the command at the cursor** and takes the cursor where its effect says. -/
theorem next?_moveTo {machine : Machine} {k : Nat} {c : Command}
    (hc : machine.script.queue.get? k = some c) :
    (machine.moveTo k).next? =
      some ((machine.told.execute k c).1.event?,
        ((machine.told.execute k c).2.moveTo (k + 1)).follow (machine.told.execute k c).1) := by
  have hget : (machine.moveTo k).script.queue.get? k = some c := hc
  have htaken := execute_moveTo k c (k + 1) machine.told
  unfold next? Queue.dequeue?
  rw [show (machine.moveTo k).script.queue.cursor = k from rfl, hget]
  simp only [Option.map_some]
  rw [show ({ machine.moveTo k with
      script := { (machine.moveTo k).script with
        queue := { (machine.moveTo k).script.queue with cursor := k + 1 } }
      reports := #[] } : Machine) = machine.told.moveTo (k + 1) from rfl, htaken]
  simp only
  cases (machine.told.execute k c).1 <;> rfl

theorem step?_moveTo {machine : Machine} {k : Nat} {c : Command}
    (hc : machine.script.queue.get? k = some c) :
    (machine.moveTo k).step? =
      some (((machine.told.execute k c).2.reports.toList.map .tell ++
          (machine.told.execute k c).1.event?.toList.map .ask),
        (((machine.told.execute k c).2.moveTo (k + 1)).follow (machine.told.execute k c).1).told) := by
  rw [step?, next?_moveTo hc]
  rfl

theorem next?_end {machine : Machine} {k : Nat} (h : machine.script.queue.get? k = none) :
    (machine.moveTo k).next? = none := by
  have hget : (machine.moveTo k).script.queue.get? k = none := h
  unfold next? Queue.dequeue?
  rw [show (machine.moveTo k).script.queue.cursor = k from rfl, hget]
  rfl

theorem step?_end {machine : Machine} {k : Nat} (h : machine.script.queue.get? k = none) :
    (machine.moveTo k).step? = none := by
  rw [step?, next?_end h]
  rfl

end Machine
end NovelScript.Script
