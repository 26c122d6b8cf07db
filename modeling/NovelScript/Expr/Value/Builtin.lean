import NovelScript.Decimal.Reading
import NovelScript.Expr.Value

/-!
The functions that every expression can call. Each takes one argument; three of them turn a value
into one of another type.
-/

namespace NovelScript.Expr

/-- The value of a built-in function. -/
def Builtin.apply (builtin : Builtin) : List Value → Value
  | [argument] =>
    match builtin, argument with
    | .length, .string s => .integer (Int32.ofInt (min s.length 2147483647))
    | .string, v => .string v.show
    | .integer, .integer n => .integer n
    | .integer, .double x => .integer x.toInt32
    | .integer, .boolean b => .integer (if b then 1 else 0)
    | .integer, .string s =>
      match Text.readInt32? (Text.trim s) with
      | some n => .integer n
      | none => .error (.notConvertible s .integer)
    | .double, .integer n => .double (Float.ofInt n.toInt)
    | .double, .double x => .double x
    | .double, .string s =>
      match Decimal.readFloat? (Text.trim s) with
      | some x => .double x
      | none => .error (.notConvertible s .double)
    | .type, v => .string v.type.name
    | builtin, v => .error (.unsupportedArgument builtin v.type)
  | arguments => .error (.wrongArgumentCount arguments.length)

end NovelScript.Expr
