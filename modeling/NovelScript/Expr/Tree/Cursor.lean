import NovelScript.Expr.Tree.Parser

/-!
Reading with a cursor. The tokens stay where they are and a cursor moves over them; errors are
collected on the way, and a counter tells how deep reading has gone into expressions and blocks. A
construct is read from its first token on, and the cursor is then left at its last one.
-/

namespace NovelScript.Expr

/-- A place among tokens, and what has been found on the way there. -/
structure Cursor where
  tokens : List Token
  /-- The place of the current token. -/
  index : Nat := 0
  errors : List ParseError := []
  /-- How many expressions and blocks have been entered and not left. -/
  depth : Nat := 0
  /-- The greatest depth so far. -/
  deepest : Nat := 0

/-- Moves a cursor. There is no result where a token behind the last one would be read, where more
would be left than has been entered, or where reading goes on beyond the bounds that are set to it.
-/
abbrev Step := StateT Cursor Option

/-- Reads something, or gives up where the cursor then stands. -/
abbrev Attempt := OptionT Step

namespace Cursor

variable {α : Type}

/-! ### Moving -/

/-- The current token. -/
def current : Step Token := fun s => s.tokens[s.index]?.map (·, s)

/-- The token behind the current one. -/
def peek : Step Token := fun s => s.tokens[s.index + 1]?.map (·, s)

/-- Goes on to the next token if there is one. -/
def next : Step Unit :=
  modify fun s => if s.index + 1 < s.tokens.length then { s with index := s.index + 1 } else s

/-- Gives up with an error. -/
def abandon (error : ParseError) : Attempt α := do
  modify fun s => { s with errors := s.errors ++ [error] }
  failure

/-- Goes on to the next token, which must be of the given kind. -/
def expectPeek (kind : TokenKind) : Attempt Unit := do
  let token ← peek
  if token.kind = kind then next
  else abandon (.unexpectedToken kind token.kind token.position)

/-- Whether the next token is of the given kind. -/
def peekIs (kind : TokenKind) : Step Bool := return (← peek).kind = kind

/-- Goes on to a semicolon if it is next. -/
def skipSemicolon : Step Unit := do
  if ← peekIs .semicolon then next

/-- The number of tokens behind the current one, which bounds every repetition. -/
def remaining : Step Nat := fun s => some (s.tokens.length - (s.index + 1), s)

/-! ### Levels -/

/-- Goes one level deeper, unless the limit is reached. -/
def enter : Attempt Unit := do
  let s ← get
  if s.depth ≥ maxNesting then
    let token ← current
    abandon (.tooDeep token.position)
  else set { s with depth := s.depth + 1, deepest := max s.deepest (s.depth + 1) }

/-- Goes back by one level. -/
def leave : Step Unit := fun s =>
  match s.depth with
  | 0 => none
  | depth + 1 => some ((), { s with depth })

/-- Reads what is inside, and goes back by one level. -/
def leaving (body : Attempt α) : Attempt α := show Step (Option α) from do
  let read ← body.run
  leave
  return read

/-- What may stand inside a construct, read one level further in. -/
structure Inner where
  /-- An expression whose outermost operators bind tighter than the precedence. -/
  expression : Precedence → Attempt Expression
  /-- The statements between two braces, the first of which is the current token. -/
  block : Attempt Block

/-! ### Expressions -/

/-- An integer literal. -/
def integer (text : String) (position : Position) : Attempt Expression :=
  match Text.readInt32? text with
  | some n => return .integer n
  | none => abandon (.invalidInteger text position)

/-- The minus sign at `position` and what follows, which together are one literal if these are
digits. -/
def negative (inner : Inner) (position : Position) : Attempt Expression := do
  if ← peekIs .integer then
    next
    let digits ← current
    integer ("-" ++ digits.text) position
  else
    next
    return .unary .negate (← inner.expression .unary)

/-- The condition and the blocks of a conditional. -/
def conditional (inner : Inner) : Attempt Expression := do
  expectPeek .leftParen
  next
  let condition ← inner.expression .lowest
  expectPeek .rightParen
  expectPeek .leftBrace
  let consequence ← inner.block
  if ← peekIs .else then
    next
    expectPeek .leftBrace
    return .ifThenElse condition consequence (← inner.block)
  else return .ifThen condition consequence

/-- The parameters behind the first one, up to the closing parenthesis; fewer than `n`. -/
def moreParameters : Nat → Attempt (List String)
  | 0 => fun _ => none
  | n + 1 => do
    if ← peekIs .comma then
      next
      expectPeek .identifier
      let name ← current
      return name.text :: (← moreParameters n)
    else
      expectPeek .rightParen
      return []

/-- The parameters between two parentheses. -/
def parameters : Attempt (List String) := do
  if ← peekIs .rightParen then
    next
    return []
  else
    expectPeek .identifier
    let name ← current
    return name.text :: (← moreParameters (← remaining))

/-- The arguments behind the first one, up to the closing parenthesis; fewer than `n`. -/
def moreArguments (inner : Inner) : Nat → Attempt (List Expression)
  | 0 => fun _ => none
  | n + 1 => do
    if ← peekIs .comma then
      next
      next
      let value ← inner.expression .lowest
      return value :: (← moreArguments inner n)
    else
      expectPeek .rightParen
      return []

/-- The arguments between two parentheses. -/
def arguments (inner : Inner) : Attempt (List Expression) := do
  if ← peekIs .rightParen then
    next
    return []
  else
    next
    let value ← inner.expression .lowest
    return value :: (← moreArguments inner (← remaining))

/-- What an expression begins with. -/
def operand (inner : Inner) : Attempt Expression := do
  let token ← current
  match token.kind with
  | .identifier => return .identifier token.text
  | .integer => integer token.text token.position
  | .double =>
    match Decimal.readFloat? token.text with
    | some x => return .double x
    | none => abandon (.invalidDouble token.text token.position)
  | .string => return .string token.text
  | .true => return .boolean true
  | .false => return .boolean false
  | .bang =>
    next
    return .unary .not (← inner.expression .unary)
  | .minus => negative inner token.position
  | .leftParen =>
    next
    let value ← inner.expression .lowest
    expectPeek .rightParen
    return value
  | .if => conditional inner
  | .function =>
    expectPeek .leftParen
    let names ← parameters
    expectPeek .leftBrace
    return .function names (← inner.block)
  | kind => abandon (.noOperand kind token.position)

/-- Extends `left` by the current operator. -/
def extend (inner : Inner) (left : Expression) : Attempt Expression := do
  let token ← current
  match token.kind with
  | .assign =>
    match left with
    | .identifier name =>
      next
      return .assign name (← inner.expression .lowest)
    | _ => abandon (.invalidTarget left.show token.position)
  | .leftParen => return .call left (← arguments inner)
  | kind =>
    match kind.binaryOp? with
    | some op =>
      next
      return .binary op left (← inner.expression kind.precedence)
    | none => return left

/-- The operators behind `left` that bind tighter than `least`; fewer than `n`. -/
def moreOperators (inner : Inner) (least : Precedence) : Nat → Expression → Attempt Expression
  | 0, _ => fun _ => none
  | n + 1, left => do
    let token ← peek
    if token.kind ≠ .semicolon ∧ least < token.kind.precedence then
      next
      moreOperators inner least n (← extend inner left)
    else return left

/-- An operand, and the operators behind it that bind tighter than `least`. -/
def operators (inner : Inner) (least : Precedence) : Attempt Expression := do
  let left ← operand inner
  moreOperators inner least (← remaining) left

/-! ### Statements -/

/-- A statement, with the semicolon behind it if there is one. -/
def statement (inner : Inner) : Attempt Statement := do
  let token ← current
  match token.kind with
  | .let =>
    expectPeek .identifier
    let name ← current
    expectPeek .assign
    next
    let value ← inner.expression .lowest
    skipSemicolon
    return .let name.text value
  | .return =>
    next
    let value ← inner.expression .lowest
    skipSemicolon
    return .return value
  | .leftBrace => return .block (← inner.block)
  | _ =>
    let value ← inner.expression .lowest
    skipSemicolon
    return .expression value

/-- Statements up to a closing brace, fewer than `n`. -/
def statements (inner : Inner) : Nat → Attempt Block
  | 0 => fun _ => none
  | n + 1 => do
    let token ← current
    match token.kind with
    | .rightBrace => return []
    | .eof => abandon (.unexpectedToken .rightBrace .eof token.position)
    | _ =>
      let first ← statement inner
      next
      return first :: (← statements inner n)

/-- What stands behind an opening brace, up to the closing one. -/
def blockBody (inner : Inner) : Attempt Block := do
  let n ← remaining
  next
  statements inner n

/-- What may be read where at most `levels` are entered. -/
def within : (levels : Nat) → Inner
  | 0 => ⟨fun _ _ => none, fun _ => none⟩
  | levels + 1 =>
    ⟨fun least => do enter; leaving (operators (within levels) least),
      do enter; leaving (blockBody (within levels))⟩

/-- A statement that stands in no other. Where the limit is reached, one more level is asked for
and refused. -/
def outerStatement : Attempt Statement := statement (within (maxNesting + 1))

/-! ### Programs -/

/-- Goes on to the end of a statement that has been given up, over fewer than `n` tokens. -/
def synchronize : Nat → Step Unit
  | 0 => fun _ => none
  | n + 1 => do
    let token ← current
    if token.kind ≠ .semicolon ∧ token.kind ≠ .eof then
      next
      synchronize n

/-- One statement of a program: the cursor in front of it, the statement if it could be read, and
the cursor after reading. -/
structure Turn where
  before : Cursor
  statement? : Option Statement
  after : Cursor

/-- Reads a statement and goes on to the next one. -/
def turn : Step Turn := do
  let before ← get
  let read ← outerStatement.run
  let after ← get
  if read.isNone then synchronize after.tokens.length
  next
  return ⟨before, read, after⟩

/-- One statement after the other, up to the end of the text; fewer than `n`. -/
def turns : Nat → Step (List Turn)
  | 0 => fun _ => none
  | n + 1 => do
    let token ← current
    if token.kind = .eof then return []
    else
      let first ← turn
      return first :: (← turns n)

/-- The cursor at the first of the tokens. -/
def start (tokens : List Token) : Cursor := { tokens }

/-- The statements of the tokens, one after the other. -/
def readAll (tokens : List Token) : Option (List Turn × Cursor) :=
  turns tokens.length (start tokens)

end Cursor
end NovelScript.Expr
