import NovelScript.Expr.Heap
import NovelScript.Expr.Tree.Parser
import NovelScript.Expr.Value.Builtin
import NovelScript.Expr.Value.Operator

/-!
Evaluation. Operands and arguments are evaluated from left to right; the first failure is the
value of everything around it. A call gets a scope of its own inside the scope of its function.
-/

namespace NovelScript.Expr

/-- Evaluation reads and writes the heap. -/
abbrev Eval := StateM Heap

/-- How a function is called with its arguments. -/
abbrev Caller := Closure → List Value → Eval Value

/-- This many calls of functions may be active at once. -/
def maxCallDepth : Nat := 128

/-- The value of a name: its binding, or else a built-in function. -/
def evalIdentifier (scope : ScopeId) (name : String) : Eval Value := do
  match (← get).lookup? name scope with
  | some v => return v
  | none =>
    match Builtin.find? name with
    | some b => return .builtin b
    | none => return .error (.undefined name)

/-- Calls a value. -/
def applyValue (call : Caller) (callee : Value) (arguments : List Value) : Eval Value :=
  match callee with
  | .function f => call f arguments
  | .builtin b => return b.apply arguments
  | v => return .error (.notFunction v.type)

mutual

/-- The value of an expression in a scope. -/
def Expression.eval (call : Caller) (scope : ScopeId) : Expression → Eval Value
  | .identifier name => evalIdentifier scope name
  | .integer n => return .integer n
  | .double x => return .double x
  | .string s => return .string s
  | .boolean b => return .boolean b
  | .unary op operand => do
    let v ← operand.eval call scope
    if v.isError then return v
    return op.apply v
  | .binary op left right => do
    let l ← left.eval call scope
    if l.isError then return l
    let r ← right.eval call scope
    if r.isError then return r
    return op.apply l r
  | .assign name value => do
    let v ← value.eval call scope
    if v.isError then return v
    modify (·.set name v scope)
    return v
  | .ifThen condition consequence => do
    let v ← condition.eval call scope
    if v.isError then return v
    if v.isTruthy then evalStatements call scope .null consequence else return .null
  | .ifThenElse condition consequence alternative => do
    let v ← condition.eval call scope
    if v.isError then return v
    if v.isTruthy then evalStatements call scope .null consequence
    else evalStatements call scope .null alternative
  | .function parameters body => modifyGet (·.makeFunction parameters body scope)
  | .call callee arguments => do
    let f ← callee.eval call scope
    if f.isError then return f
    match ← evalArguments call scope arguments with
    | .ok values => applyValue call f values
    | .error v => return v

/-- The value of a statement in a scope. -/
def Statement.eval (call : Caller) (scope : ScopeId) : Statement → Eval Value
  | .let name value => do
    let v ← value.eval call scope
    if v.isError then return v
    modify (·.set name v scope)
    return .null
  | .return value => do
    let v ← value.eval call scope
    if v.isError then return v
    return .returned v
  | .expression value => value.eval call scope
  | .block body => evalStatements call scope .null body

/-- The value of the last statement, or `last` if there is none; a failure or a `return` leaves
the statements behind it out. -/
def evalStatements (call : Caller) (scope : ScopeId) (last : Value) : List Statement → Eval Value
  | [] => return last
  | first :: rest => do
    let v ← first.eval call scope
    if v.isFinal then return v
    evalStatements call scope v rest

/-- The values of arguments, or the first failure among them. -/
def evalArguments (call : Caller) (scope : ScopeId) :
    List Expression → Eval (Except Value (List Value))
  | [] => return .ok []
  | first :: rest => do
    let v ← first.eval call scope
    if v.isError then return .error v
    match ← evalArguments call scope rest with
    | .ok values => return .ok (v :: values)
    | .error e => return .error e

end

/-- Calls a function while at most `depth` further calls may become active. -/
def callWithin : (depth : Nat) → Caller
  | 0, _, _ => return .error .tooManyCalls
  | depth + 1, f, arguments => do
    let scope ← modifyGet (·.enclose f.scope)
    modify (·.bindAll f.parameters arguments scope)
    return (← evalStatements (callWithin depth) scope .null f.body).unwrap

/-- The value of an expression, with no call active yet. -/
def evalExpression (e : Expression) (scope : ScopeId) : Eval Value :=
  e.eval (callWithin maxCallDepth) scope

/-- The value of a program, with no call active yet. -/
def evalProgram (program : Program) (scope : ScopeId) : Eval Value :=
  return (← evalStatements (callWithin maxCallDepth) scope .null program).unwrap

/-- Reads and evaluates a text, or gives its errors and evaluates nothing. -/
def evalText (source : String) (scope : ScopeId) : Eval (Except (List ParseError) Value) :=
  match parse source with
  | .ok program => return .ok (← evalProgram program scope)
  | .error errors => return .error errors

end NovelScript.Expr
