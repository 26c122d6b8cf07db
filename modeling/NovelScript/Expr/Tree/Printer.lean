import NovelScript.Decimal.Form
import NovelScript.Expr.Tree
import NovelScript.Text.Quoted

/-!
Expression trees as text, with parentheses around every operator.
-/

namespace NovelScript.Expr

mutual

/-- An expression as text. -/
def Expression.show : Expression → String
  | .identifier name => name
  | .integer n => toString n.toInt
  | .double x => Decimal.Form.literal.write x
  | .string s => Text.quote s
  | .boolean b => toString b
  | .unary op operand => "(" ++ op.sign ++ operand.show ++ ")"
  | .binary op left right => "(" ++ left.show ++ " " ++ op.sign ++ " " ++ right.show ++ ")"
  | .assign name value => "(" ++ name ++ " = " ++ value.show ++ ")"
  | .ifThen condition consequence =>
    "if " ++ condition.show ++ " \x7b " ++ showStatements consequence ++ " \x7d"
  | .ifThenElse condition consequence alternative =>
    "if " ++ condition.show ++ " \x7b " ++ showStatements consequence ++ " \x7d else \x7b " ++
      showStatements alternative ++ " \x7d"
  | .function parameters body =>
    "function(" ++ ", ".intercalate parameters ++ ") \x7b " ++ showStatements body ++ " \x7d"
  | .call callee arguments => callee.show ++ "(" ++ ", ".intercalate (showEach arguments) ++ ")"

/-- A statement as text. -/
def Statement.show : Statement → String
  | .let name value => "let " ++ name ++ " = " ++ value.show ++ ";"
  | .return value => "return " ++ value.show ++ ";"
  | .expression value => value.show
  | .block body => "\x7b " ++ showStatements body ++ " \x7d"

/-- Statements as text, one behind the other. -/
def showStatements : List Statement → String
  | [] => ""
  | statement :: rest => statement.show ++ showStatements rest

/-- The texts of a list of expressions. -/
def showEach : List Expression → List String
  | [] => []
  | value :: rest => value.show :: showEach rest

end

/-- A function as text. -/
def showFunction (parameters : List String) (body : Block) : String :=
  (Expression.function parameters body).show

/-- A program as text. -/
def Program.show (program : Program) : String := showStatements program

end NovelScript.Expr
