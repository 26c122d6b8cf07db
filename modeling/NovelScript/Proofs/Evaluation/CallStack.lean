import NovelScript.Proofs.Evaluation.Parts

/-!
Evaluation as a machine. Its state has a stack of what waits for the value that is being computed,
and counts the calls that are active: up where a body is entered, down where it is left. Main
statement: the counter is the number of bodies on the stack, and stays within the limit.
-/

namespace NovelScript.Expr

/-! ### States -/

/-- What is done with the value of an operand. -/
inductive Use
  | unary (op : UnaryOp)
  | left (op : BinaryOp) (right : Expression)
  | right (op : BinaryOp) (left : Value)
  | assign (name : String)
  | condition (consequence : Block) (alternative : Option Block)
  | callee (arguments : List Expression)
  | argument (callee : Value) (values : List Value) (rest : List Expression)
  | «let» (name : String)
  | «return»

/-- What waits for a value. -/
inductive Pending
  /-- The construct that it is an operand of. -/
  | operand (use : Use)
  /-- The statements behind the one that has it. -/
  | rest (body : Block)
  /-- The call of the function whose body has it, in the scope to go back to. -/
  | call (caller : ScopeId)

/-- Whether a call waits. -/
def Pending.isCall : Pending → Bool
  | call _ => true
  | _ => false

/-- What is done next: something is evaluated, or a value goes to what waits for it. -/
inductive Control
  | evaluate (task : Task)
  | give (value : Value)

/-- A state of the machine. -/
structure Evaluator where
  control : Control
  scope : ScopeId
  heap : Heap
  /-- Counts the calls that are active. -/
  depth : Nat
  /-- The last to wait comes first. -/
  stack : List Pending

namespace Evaluator

variable {m m' : Evaluator}

/-- A program is evaluated with no call active, and nothing waits for its value. -/
def start (program : Program) (scope : ScopeId) (heap : Heap) : Evaluator :=
  ⟨.evaluate (.statements .null program), scope, heap, 0, []⟩

/-- The number of calls that wait for their bodies. -/
def activeCalls (m : Evaluator) : Nat := m.stack.countP Pending.isCall

/-! ### Steps -/

/-- Goes on with a value. -/
def give (m : Evaluator) (v : Value) : Evaluator := { m with control := .give v }

/-- Goes on by evaluating. -/
def evaluate (m : Evaluator) (task : Task) : Evaluator := { m with control := .evaluate task }

/-- Evaluates an operand. -/
def operand (m : Evaluator) (e : Expression) (use : Use) : Evaluator :=
  { m with control := .evaluate (.expression e), stack := .operand use :: m.stack }

/-- Goes on with a branch, or with null where there is none. -/
def branch (m : Evaluator) : Option Block → Evaluator
  | some body => m.evaluate (.statements .null body)
  | none => m.give .null

/-- Calls a value. A function is refused while as many calls are active as may be. -/
def apply (m : Evaluator) (callee : Value) (values : List Value) : Evaluator :=
  match callee with
  | .function f =>
    if maxCallDepth ≤ m.depth then m.give (.error .tooManyCalls)
    else
      { control := .evaluate (.statements .null f.body)
        scope := m.heap.scopes.size
        heap := m.heap.enter f values
        depth := m.depth + 1
        stack := .call m.scope :: m.stack }
  | .builtin b => m.give (b.apply values)
  | v => m.give (.error (.notFunction v.type))

/-- Evaluates the arguments that are left, and calls. -/
def collect (m : Evaluator) (callee : Value) (values : List Value) : List Expression → Evaluator
  | [] => m.apply callee values
  | e :: es => m.operand e (.argument callee values es)

/-- Makes use of the value of an operand. -/
def use (m : Evaluator) (v : Value) : Use → Evaluator
  | .unary op => m.give (op.apply v)
  | .left op r => m.operand r (.right op v)
  | .right op l => m.give (op.apply l v)
  | .assign name => { m with control := .give v, heap := m.heap.set name v m.scope }
  | .condition consequence alternative =>
    m.branch (if v.isTruthy then some consequence else alternative)
  | .callee es => m.collect v [] es
  | .argument f values es => m.collect f (values ++ [v]) es
  | .let name => { m with control := .give .null, heap := m.heap.set name v m.scope }
  | .return => m.give (.returned v)

/-- Begins to evaluate. -/
def begin (m : Evaluator) : Task → Evaluator
  | .expression (.identifier name) =>
    m.give ((m.heap.lookup? name m.scope).getD
      ((Builtin.find? name).elim (.error (.undefined name)) .builtin))
  | .expression (.integer n) => m.give (.integer n)
  | .expression (.double x) => m.give (.double x)
  | .expression (.string s) => m.give (.string s)
  | .expression (.boolean b) => m.give (.boolean b)
  | .expression (.unary op e) => m.operand e (.unary op)
  | .expression (.binary op l r) => m.operand l (.left op r)
  | .expression (.assign name e) => m.operand e (.assign name)
  | .expression (.ifThen c body) => m.operand c (.condition body none)
  | .expression (.ifThenElse c body other) => m.operand c (.condition body (some other))
  | .expression (.function parameters body) =>
    let made := m.heap.makeFunction parameters body m.scope
    { m with control := .give made.1, heap := made.2 }
  | .expression (.call f es) => m.operand f (.callee es)
  | .statement (.let name e) => m.operand e (.let name)
  | .statement (.return e) => m.operand e .return
  | .statement (.expression e) => m.evaluate (.expression e)
  | .statement (.block body) => m.evaluate (.statements .null body)
  | .statements last [] => m.give last
  | .statements _ (first :: rest) =>
    { m with control := .evaluate (.statement first), stack := .rest rest :: m.stack }

/-- Goes on with a value where it was waited for. A failure passes operands by. -/
def resume (m : Evaluator) (v : Value) : Pending → Evaluator
  | .operand use => if v.isError then m.give v else m.use v use
  | .rest body => if v.isFinal then m.give v else m.evaluate (.statements v body)
  | .call caller =>
    { m with control := .give v.unwrap, scope := caller, depth := m.depth - 1 }

/-- One step; none when nothing waits for the value. -/
def next? (m : Evaluator) : Option Evaluator :=
  match m.control, m.stack with
  | .evaluate task, _ => some (m.begin task)
  | .give _, [] => none
  | .give v, pending :: stack => some ({ m with stack }.resume v pending)

/-! ### The counter -/

/-- The counter is the number of active calls, and within the limit. -/
structure Counts (m : Evaluator) : Prop where
  depth : m.depth = m.activeCalls
  bounded : m.depth ≤ maxCallDepth

theorem Counts.give (h : m.Counts) (v : Value) : (m.give v).Counts := ⟨h.depth, h.bounded⟩

theorem Counts.evaluate (h : m.Counts) (task : Task) : (m.evaluate task).Counts :=
  ⟨h.depth, h.bounded⟩

theorem Counts.operand (h : m.Counts) (e : Expression) (use : Use) : (m.operand e use).Counts :=
  ⟨h.depth, h.bounded⟩

theorem Counts.branch (h : m.Counts) (body : Option Block) : (m.branch body).Counts := by
  cases body with
  | none => exact h.give _
  | some body => exact h.evaluate _

/-- A call that is not refused is one more, and not one too many. -/
theorem Counts.apply (h : m.Counts) (callee : Value) (values : List Value) :
    (m.apply callee values).Counts := by
  unfold Evaluator.apply
  split
  · split
    · exact h.give _
    · rename_i hroom
      refine ⟨?_, by simp only; omega⟩
      simp only [activeCalls, List.countP_cons, Pending.isCall, if_true, h.depth]
  · exact h.give _
  · exact h.give _

theorem Counts.collect (h : m.Counts) (callee : Value) (values : List Value)
    (es : List Expression) : (m.collect callee values es).Counts := by
  cases es with
  | nil => exact h.apply callee values
  | cons e es => exact h.operand e _

theorem Counts.use (h : m.Counts) (v : Value) (use : Use) : (m.use v use).Counts := by
  cases use with
  | unary op => exact h.give _
  | left op r => exact h.operand r _
  | right op l => exact h.give _
  | assign name => exact ⟨h.depth, h.bounded⟩
  | condition consequence alternative => exact h.branch _
  | callee es => exact h.collect v [] es
  | argument f values es => exact h.collect f _ es
  | «let» name => exact ⟨h.depth, h.bounded⟩
  | «return» => exact h.give _

theorem Counts.begin (h : m.Counts) (task : Task) : (m.begin task).Counts := by
  unfold Evaluator.begin
  split <;> exact ⟨h.depth, h.bounded⟩

/-- Where a body is left, its call is no longer on the stack. -/
theorem Counts.resume {pending : Pending} {stack : List Pending} (h : m.Counts)
    (hstack : m.stack = pending :: stack) (v : Value) :
    ({ m with stack }.resume v pending).Counts := by
  have hdepth := h.depth
  have hbounded := h.bounded
  rw [activeCalls, hstack, List.countP_cons] at hdepth
  cases pending with
  | operand use =>
    have hbelow : Counts { m with stack } := ⟨hdepth, hbounded⟩
    rw [Evaluator.resume]
    split
    · exact hbelow.give v
    · exact hbelow.use v use
  | rest body =>
    have hbelow : Counts { m with stack } := ⟨hdepth, hbounded⟩
    rw [Evaluator.resume]
    split
    · exact hbelow.give v
    · exact hbelow.evaluate _
  | call caller =>
    simp only [Pending.isCall, if_true] at hdepth
    refine ⟨?_, ?_⟩
    · show m.depth - 1 = stack.countP Pending.isCall
      omega
    · show m.depth - 1 ≤ maxCallDepth
      omega

/-- **One step leaves the counter right**, and within the limit. -/
theorem Counts.next (h : m.Counts) (hnext : m.next? = some m') : m'.Counts := by
  unfold next? at hnext
  split at hnext
  · rename_i task _
    obtain rfl := Option.some.inj hnext
    exact h.begin task
  · cases hnext
  · rename_i v pending stack _ hstack
    obtain rfl := Option.some.inj hnext
    exact h.resume hstack v

theorem counts_start (program : Program) (scope : ScopeId) (heap : Heap) :
    (start program scope heap).Counts := ⟨rfl, Nat.zero_le _⟩

end Evaluator
end NovelScript.Expr
