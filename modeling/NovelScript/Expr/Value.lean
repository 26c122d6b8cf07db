import NovelScript.Expr.Tree.Printer

/-!
The values of the expression language. A failed evaluation is a value too, and so is a returned
value on its way to the function or program that it leaves.
-/

namespace NovelScript.Expr

/-- The types of values. -/
inductive ValueType
  | integer | double | string | boolean | null | returned | error | function | builtin
deriving DecidableEq, Repr

/-- How messages name a type. -/
def ValueType.name : ValueType → String
  | integer => "INTEGER"
  | double => "DOUBLE"
  | string => "STRING"
  | boolean => "BOOLEAN"
  | null => "NULL"
  | returned => "RETURN_VALUE"
  | error => "ERROR"
  | function => "FUNCTION"
  | builtin => "BUILTIN"

/-- The functions that every expression can call. -/
inductive Builtin
  | length | string | integer | double | type
deriving DecidableEq, Repr

namespace Builtin

/-- The name that a function is called by. -/
def name : Builtin → String
  | length => "length"
  | string => "str"
  | integer => "int"
  | double => "double"
  | type => "type"

/-- All of them, as listings give them. -/
def all : List Builtin := [.length, .string, .integer, .double, .type]

/-- The function called by a name. -/
def find? (name : String) : Option Builtin := all.find? (·.name = name)

end Builtin

/-- Strings of more bytes than this, `2 ^ 24`, are never built. -/
def maxStringBytes : Nat := 16777216

/-- Why an evaluation failed. -/
inductive Fault
  | undefined (name : String)
  | notFunction (type : ValueType)
  /-- More calls are active than `maxCallDepth`. -/
  | tooManyCalls
  | typeMismatch (left : ValueType) (op : BinaryOp) (right : ValueType)
  | unknownUnary (op : UnaryOp) (operand : ValueType)
  | unknownBinary (left : ValueType) (op : BinaryOp) (right : ValueType)
  | divisionByZero (dividend : Int32)
  | negativeCount (text : String) (count : Int32)
  /-- A string of `bytes` bytes would grow beyond `maxStringBytes`. -/
  | stringTooLong (bytes : Nat) (op : BinaryOp) (operand : String)
  | wrongArgumentCount (got : Nat)
  | unsupportedArgument (builtin : Builtin) (type : ValueType)
  | notConvertible (text : String) (type : ValueType)
  /-- A failure that the host brought in. -/
  | reported (message : String)
deriving DecidableEq, Repr

/-- A failure in words. -/
def Fault.message : Fault → String
  | undefined name => "undefined identifier " ++ name
  | notFunction type => "not a function: " ++ type.name
  | tooManyCalls => "maximum call depth exceeded"
  | typeMismatch left op right =>
    "type mismatch: " ++ left.name ++ " " ++ op.sign ++ " " ++ right.name
  | unknownUnary op operand => "unknown operator " ++ op.sign ++ operand.name
  | unknownBinary left op right =>
    "unknown operator " ++ left.name ++ " " ++ op.sign ++ " " ++ right.name
  | divisionByZero dividend => "division by zero: " ++ toString dividend.toInt ++ " / 0"
  | negativeCount text count =>
    "negative repeat count: " ++ Text.quote text ++ " * " ++ toString count.toInt
  | stringTooLong bytes op operand =>
    "string too long: " ++ toString bytes ++ " bytes " ++ op.sign ++ " " ++ operand ++
      " exceeds " ++ toString maxStringBytes
  | wrongArgumentCount got => "wrong number of arguments. got=" ++ toString got ++ ", want=1"
  | unsupportedArgument builtin type =>
    "argument to `" ++ builtin.name ++ "` not supported, got " ++ type.name
  | notConvertible text type => "could not convert " ++ Text.quote text ++ " to " ++ type.name
  | reported message => message

/-- The number of a scope on the heap. -/
abbrev ScopeId := Nat

/-- A function together with the scope it was made in. Every evaluation of a function literal
makes another one, told from the others by its `identity`. -/
structure Closure where
  parameters : List String
  body : Block
  scope : ScopeId
  identity : Nat

/-- A value. -/
inductive Value
  | integer (n : Int32)
  | double (x : Float)
  | string (s : String)
  | boolean (b : Bool)
  | null
  /-- The value of a `return`, until a function or the program ends with it. -/
  | returned (value : Value)
  | error (fault : Fault)
  | function (f : Closure)
  | builtin (b : Builtin)

instance : Inhabited Value := ⟨.null⟩

namespace Value

/-- The type of a value. -/
def type : Value → ValueType
  | integer _ => .integer
  | double _ => .double
  | string _ => .string
  | boolean _ => .boolean
  | null => .null
  | returned _ => .returned
  | error _ => .error
  | function _ => .function
  | builtin _ => .builtin

/-- Everything but `false` and null counts as true. -/
def isTruthy : Value → Bool
  | boolean b => b
  | null => false
  | _ => true

/-- Whether the value is a failure. -/
def isError : Value → Bool
  | error _ => true
  | _ => false

/-- Whether the statements behind the one with this value are left out. -/
def isFinal : Value → Bool
  | error _ | returned _ => true
  | _ => false

/-- The value that a function or program ends with. -/
def unwrap : Value → Value
  | returned v => v
  | v => v

/-- Whether two values are one and the same: equal truth values, null, one function. -/
def identical : Value → Value → Bool
  | boolean a, boolean b => a = b
  | null, null => true
  | function f, function g => f.identity = g.identity
  | builtin a, builtin b => a = b
  | _, _ => false

/-- Whether two values have the same type and content. Functions have no content but their
identity, and no number differs from itself. -/
def equal : Value → Value → Bool
  | integer a, integer b => a = b
  | double a, double b => a == b
  | string a, string b => a = b
  | returned a, returned b => equal a b
  | error a, error b => a.message = b.message
  | a, b => identical a b

/-- A value as text. -/
def «show» : Value → String
  | integer n => toString n.toInt
  | double x => Decimal.Form.value.write x
  | string s => s
  | boolean b => toString b
  | null => "null"
  | returned v => v.show
  | error fault => "ERROR: " ++ fault.message
  | function f => showFunction f.parameters f.body
  | builtin b => "builtin " ++ b.name

end Value
end NovelScript.Expr
