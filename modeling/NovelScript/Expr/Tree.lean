/-!
The trees of the expression language.
-/

namespace NovelScript.Expr

/-- Operators with one operand. -/
inductive UnaryOp
  | not | negate
deriving DecidableEq, Repr

/-- Operators with two operands. -/
inductive BinaryOp
  | add | subtract | multiply | divide
  | less | greater | lessEqual | greaterEqual | equal | notEqual
  | and | or
deriving DecidableEq, Repr

/-- How an operator is written. -/
def UnaryOp.sign : UnaryOp → String
  | not => "!"
  | negate => "-"

/-- How an operator is written. -/
def BinaryOp.sign : BinaryOp → String
  | add => "+"
  | subtract => "-"
  | multiply => "*"
  | divide => "/"
  | less => "<"
  | greater => ">"
  | lessEqual => "<="
  | greaterEqual => ">="
  | equal => "=="
  | notEqual => "!="
  | and => "&&"
  | or => "||"

mutual

/-- An expression. A block is the list of its statements. -/
inductive Expression
  | identifier (name : String)
  | integer (value : Int32)
  | double (value : Float)
  | string (value : String)
  | boolean (value : Bool)
  | unary (op : UnaryOp) (operand : Expression)
  | binary (op : BinaryOp) (left right : Expression)
  | assign (name : String) (value : Expression)
  | ifThen (condition : Expression) (consequence : List Statement)
  | ifThenElse (condition : Expression) (consequence alternative : List Statement)
  | function (parameters : List String) (body : List Statement)
  | call (callee : Expression) (arguments : List Expression)

/-- A statement. -/
inductive Statement
  | «let» (name : String) (value : Expression)
  | «return» (value : Expression)
  | expression (value : Expression)
  | block (body : List Statement)

end

instance : Inhabited Expression := ⟨.boolean false⟩

instance : Inhabited Statement := ⟨.block []⟩

/-- The statements between two braces. -/
abbrev Block := List Statement

/-- A parsed text: its statements in order. -/
abbrev Program := List Statement

/-- The names a program binds at its top level, by declaration or by plain assignment. -/
def Program.boundNames (program : Program) : List String :=
  program.filterMap fun
    | .let name _ => some name
    | .expression (.assign name _) => some name
    | _ => none

end NovelScript.Expr
