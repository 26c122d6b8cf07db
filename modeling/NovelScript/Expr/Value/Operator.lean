import NovelScript.Expr.Value

/-!
What the operators do. An operator looks at the types of both operands; integers wrap around at
32 bits, and strings stay below a fixed length.
-/

namespace NovelScript.Expr

/-- The value of an operator with one operand. -/
def UnaryOp.apply : UnaryOp → Value → Value
  | .not, v => .boolean !v.isTruthy
  | .negate, .integer n => .integer (-n)
  | .negate, .double x => .double (-x)
  | .negate, v => .error (.unknownUnary .negate v.type)

namespace BinaryOp

/-- The answer of a comparison of two ordered things. -/
def compare? {α : Type} [DecidableEq α] [LT α] [DecidableLT α] (op : BinaryOp) (l r : α) :
    Option Bool :=
  match op with
  | .less => some (l < r)
  | .greater => some (r < l)
  | .lessEqual => some (!(r < l : Bool))
  | .greaterEqual => some (!(l < r : Bool))
  | .equal => some (l = r)
  | .notEqual => some (l ≠ r)
  | _ => none

/-- An operator on two integers. -/
def onIntegers (op : BinaryOp) (l r : Int32) : Value :=
  match op with
  | .add => .integer (l + r)
  | .subtract => .integer (l - r)
  | .multiply => .integer (l * r)
  | .divide => if r = 0 then .error (.divisionByZero l) else .integer (l / r)
  | op =>
    match op.compare? l r with
    | some b => .boolean b
    | none => .error (.unknownBinary .integer op .integer)

/-- An operator on two doubles. -/
def onDoubles (op : BinaryOp) (l r : Float) : Value :=
  match op with
  | .add => .double (l + r)
  | .subtract => .double (l - r)
  | .multiply => .double (l * r)
  | .divide => .double (l / r)
  | .less => .boolean (l < r)
  | .greater => .boolean (r < l)
  | .lessEqual => .boolean (l ≤ r)
  | .greaterEqual => .boolean (r ≤ l)
  | .equal => .boolean (l == r)
  | .notEqual => .boolean (l != r)
  | op => .error (.unknownBinary .double op .double)

/-- An operator on two truth values; both have been evaluated. -/
def onBooleans (op : BinaryOp) (l r : Bool) : Value :=
  match op with
  | .and => .boolean (l && r)
  | .or => .boolean (l || r)
  | .equal => .boolean (l = r)
  | .notEqual => .boolean (l ≠ r)
  | op => .error (.unknownBinary .boolean op .boolean)

/-- `l` followed by `r`, if `bound`, which is at least the number of their bytes, allows it. -/
def concatenate (l r : String) (bound : Nat) : Value :=
  if bound ≤ maxStringBytes then .string (l ++ r)
  else .error (.stringTooLong l.utf8ByteSize .add r)

/-- `s` written `n` times; of the empty text one copy is enough. -/
def copies (n : Nat) (s : String) : String := if s.isEmpty then s else Nat.repeat (· ++ s) n ""

/-- `l` written `count` times, unless that is too long. -/
def repeatText (l : String) (count : Int32) : Value :=
  if count < 0 then .error (.negativeCount l count)
  else
    let n := count.toInt.toNat
    if l.utf8ByteSize * n ≤ maxStringBytes then .string (copies n l)
    else .error (.stringTooLong l.utf8ByteSize .multiply (toString count.toInt))

/-- An operator on two strings. -/
def onStrings (op : BinaryOp) (l r : String) : Value :=
  match op with
  | .add => concatenate l r (l.utf8ByteSize + r.utf8ByteSize)
  | op =>
    match op.compare? l r with
    | some b => .boolean b
    | none => .error (.unknownBinary .string op .string)

/-- An operator on operands without one of its own: only identity, or else a failure. -/
def onOthers (op : BinaryOp) (l r : Value) : Value :=
  match op with
  | .equal => .boolean (l.identical r)
  | .notEqual => .boolean !l.identical r
  | op =>
    if l.type = r.type then .error (.unknownBinary l.type op r.type)
    else .error (.typeMismatch l.type op r.type)

/-- The most characters an integer takes in decimal. -/
def integerWidth : Nat := 11

/-- The value of an operator with two operands. -/
def apply (op : BinaryOp) (left right : Value) : Value :=
  match left, right with
  | .integer l, .integer r => op.onIntegers l r
  | .double l, .double r => op.onDoubles l r
  | .string l, .string r => op.onStrings l r
  | .string l, .integer r =>
    match op with
    | .multiply => repeatText l r
    | .add => concatenate l (toString r.toInt) (l.utf8ByteSize + integerWidth)
    | op => op.onOthers left right
  | .boolean l, .boolean r => op.onBooleans l r
  | l, r => op.onOthers l r

end BinaryOp

end NovelScript.Expr
