import NovelScript.Decimal.Reading
import NovelScript.Expr.Token.Lexer
import NovelScript.Expr.Tree.Printer

/-!
Token lists as expression trees. An expression is read by operator precedence. A statement that
cannot be read is given up at its first error; reading goes on behind the next semicolon, so a
text has one error for each statement given up.
-/

namespace NovelScript.Expr

/-! ### Errors -/

/-- Why a statement was given up, and where. -/
inductive ParseError
  /-- One kind of token was needed and another found. -/
  | unexpectedToken (expected actual : TokenKind) (position : Position)
  /-- The token does not begin an expression. -/
  | noOperand (kind : TokenKind) (position : Position)
  /-- The digits are no integer of 32 bits. -/
  | invalidInteger (text : String) (position : Position)
  /-- The text is no number. -/
  | invalidDouble (text : String) (position : Position)
  /-- Something other than an identifier stands before an equals sign. -/
  | invalidTarget (target : String) (position : Position)
  /-- Expressions and blocks are nested beyond `maxNesting`. -/
  | tooDeep (position : Position)
deriving DecidableEq, Repr

namespace ParseError

/-- The place of the error. -/
def position : ParseError → Position
  | unexpectedToken _ _ p | noOperand _ p | invalidInteger _ p | invalidDouble _ p
  | invalidTarget _ p | tooDeep p => p

/-- The error in words, its place aside. -/
def reason : ParseError → String
  | unexpectedToken expected actual _ =>
    "expected next token to be " ++ expected.name ++ ", got " ++ actual.name ++ " instead"
  | noOperand kind _ => "no prefix parse function for " ++ kind.name ++ " found"
  | invalidInteger text _ => "could not parse " ++ Text.quote text ++ " as integer"
  | invalidDouble text _ => "could not parse " ++ Text.quote text ++ " as double"
  | invalidTarget target _ => "cannot assign to " ++ target
  | tooDeep _ => "expression nested too deeply"

/-- The error in words behind its place. -/
def message (e : ParseError) : String := toString e.position ++ ": " ++ e.reason

end ParseError

/-- Expressions and blocks may be nested this deep. -/
def maxNesting : Nat := 256

/-! ### Precedence -/

/-- How tightly an operator binds, from loose to tight. -/
inductive Precedence
  | lowest | assign | or | and | equality | comparison | sum | product | unary | call
deriving DecidableEq, Repr, Inhabited

/-- The rank of a precedence. -/
def Precedence.rank : Precedence → Nat
  | lowest => 0
  | assign => 1
  | or => 2
  | and => 3
  | equality => 4
  | comparison => 5
  | sum => 6
  | product => 7
  | unary => 8
  | call => 9

instance : LT Precedence := ⟨fun p q => p.rank < q.rank⟩

instance (p q : Precedence) : Decidable (p < q) := inferInstanceAs (Decidable (p.rank < q.rank))

/-- How tightly an operator with two operands binds. -/
def BinaryOp.precedence : BinaryOp → Precedence
  | add | subtract => .sum
  | multiply | divide => .product
  | less | greater | lessEqual | greaterEqual => .comparison
  | equal | notEqual => .equality
  | and => .and
  | or => .or

/-- The operator with two operands that a token is. -/
def TokenKind.binaryOp? : TokenKind → Option BinaryOp
  | plus => some .add
  | minus => some .subtract
  | asterisk => some .multiply
  | slash => some .divide
  | less => some .less
  | greater => some .greater
  | lessEqual => some .lessEqual
  | greaterEqual => some .greaterEqual
  | equal => some .equal
  | notEqual => some .notEqual
  | and => some .and
  | or => some .or
  | _ => none

/-- How tightly a token binds to the operand before it; the lowest precedence if it does not. -/
def TokenKind.precedence (kind : TokenKind) : Precedence :=
  match kind with
  | assign => .assign
  | leftParen => .call
  | _ => (kind.binaryOp?.map BinaryOp.precedence).getD .lowest

/-! ### Reading tokens -/

/-- Why and before which tokens reading stopped. -/
structure Failure where
  error : ParseError
  rest : List Token

/-- A reader of tokens: it takes tokens off the list, or gives up. -/
abbrev Parser := StateT (List Token) (Except Failure)

/-- The first of the tokens left; behind the last one the end of the text. -/
def firstToken (tokens : List Token) : Token := tokens.head?.getD ⟨.eof, "", {}⟩

namespace Parser

/-- The next token, left where it is. -/
def peek : Parser Token := fun tokens => .ok (firstToken tokens, tokens)

/-- Takes one token. -/
def advance : Parser Unit := fun tokens => .ok ((), tokens.tail)

/-- Gives up. -/
def fail {α : Type} (error : ParseError) : Parser α := fun tokens => .error ⟨error, tokens⟩

/-- Takes a token of the given kind. -/
def expect (kind : TokenKind) : Parser Token := do
  let token ← peek
  if token.kind = kind then
    advance
    return token
  else fail (.unexpectedToken kind token.kind token.position)

/-- Takes a token of the given kind if it is next. -/
def accept (kind : TokenKind) : Parser Bool := do
  let token ← peek
  if token.kind = kind then
    advance
    return true
  else return false

/-- The number of tokens left, which bounds every repetition. -/
def remaining : Parser Nat := fun tokens => .ok (tokens.length, tokens)

/-- The readers of what may stand inside a construct, one level further in. -/
structure Inner where
  /-- An expression whose outermost operators bind tighter than the precedence. -/
  expression : Precedence → Parser Expression
  /-- The statements between two braces. -/
  block : Parser Block

/-! ### Expressions -/

/-- An integer literal. -/
def integer (text : String) (position : Position) : Parser Expression :=
  match Text.readInt32? text with
  | some n => pure (.integer n)
  | none => fail (.invalidInteger text position)

/-- A minus sign has been read at `position`. Together with digits right behind it, it is one
literal, so that the least integer can be written. -/
def negative (inner : Inner) (position : Position) : Parser Expression := do
  let token ← peek
  if token.kind = .integer then
    advance
    integer ("-" ++ token.text) position
  else return .unary .negate (← inner.expression .unary)

/-- A block, whose opening brace must be next. -/
def braced (inner : Inner) : Parser Block := do
  let token ← peek
  if token.kind = .leftBrace then inner.block
  else fail (.unexpectedToken .leftBrace token.kind token.position)

/-- The condition and the blocks of a conditional. -/
def conditional (inner : Inner) : Parser Expression := do
  let _ ← expect .leftParen
  let condition ← inner.expression .lowest
  let _ ← expect .rightParen
  let consequence ← braced inner
  if ← accept .else then
    return .ifThenElse condition consequence (← braced inner)
  else return .ifThen condition consequence

/-- The parameters behind the first one, at most `n`. -/
def moreParameters : Nat → Parser (List String)
  | 0 => return []
  | n + 1 => do
    if ← accept .comma then
      let name ← expect .identifier
      return name.text :: (← moreParameters n)
    else
      let _ ← expect .rightParen
      return []

/-- The parameters between two parentheses, the first of which has been read. -/
def parameters : Parser (List String) := do
  if ← accept .rightParen then return []
  let name ← expect .identifier
  return name.text :: (← moreParameters (← remaining))

/-- The arguments behind the first one, at most `n`. -/
def moreArguments (inner : Inner) : Nat → Parser (List Expression)
  | 0 => return []
  | n + 1 => do
    if ← accept .comma then
      let value ← inner.expression .lowest
      return value :: (← moreArguments inner n)
    else
      let _ ← expect .rightParen
      return []

/-- The arguments between two parentheses, the first of which has been read. -/
def arguments (inner : Inner) : Parser (List Expression) := do
  if ← accept .rightParen then return []
  let value ← inner.expression .lowest
  return value :: (← moreArguments inner (← remaining))

/-- What an expression begins with: everything up to the first operator behind an operand. -/
def operand (inner : Inner) : Parser Expression := do
  let token ← peek
  match token.kind with
  | .identifier => advance; return .identifier token.text
  | .integer => advance; integer token.text token.position
  | .double =>
    advance
    match Decimal.readFloat? token.text with
    | some x => return .double x
    | none => fail (.invalidDouble token.text token.position)
  | .string => advance; return .string token.text
  | .true => advance; return .boolean true
  | .false => advance; return .boolean false
  | .bang => advance; return .unary .not (← inner.expression .unary)
  | .minus => advance; negative inner token.position
  | .leftParen =>
    advance
    let value ← inner.expression .lowest
    let _ ← expect .rightParen
    return value
  | .if => advance; conditional inner
  | .function =>
    advance
    let _ ← expect .leftParen
    let names ← parameters
    return .function names (← braced inner)
  | kind => fail (.noOperand kind token.position)

/-- Extends the operand `left` by the operator that is next. -/
def extend (inner : Inner) (left : Expression) : Parser Expression := do
  let token ← peek
  match token.kind with
  | .assign =>
    match left with
    | .identifier name => advance; return .assign name (← inner.expression .lowest)
    | _ => fail (.invalidTarget left.show token.position)
  | .leftParen => advance; return .call left (← arguments inner)
  | kind =>
    match kind.binaryOp? with
    | some op => advance; return .binary op left (← inner.expression op.precedence)
    | none => return left

/-- Extends the operand `left` by at most `n` operators that bind tighter than `least`. -/
def operators (inner : Inner) (least : Precedence) : Nat → Expression → Parser Expression
  | 0, left => return left
  | n + 1, left => do
    if least < (← peek).kind.precedence then operators inner least n (← extend inner left)
    else return left

/-- An expression whose outermost operators bind tighter than `least`. -/
def expression (inner : Inner) (least : Precedence) : Parser Expression := do
  let left ← operand inner
  operators inner least (← remaining) left

/-! ### Statements -/

/-- A statement, with the semicolon behind it if there is one. -/
def statement (inner : Inner) : Parser Statement := do
  let token ← peek
  match token.kind with
  | .let =>
    advance
    let name ← expect .identifier
    let _ ← expect .assign
    let value ← inner.expression .lowest
    let _ ← accept .semicolon
    return .let name.text value
  | .return =>
    advance
    let value ← inner.expression .lowest
    let _ ← accept .semicolon
    return .return value
  | .leftBrace => return .block (← inner.block)
  | _ =>
    let value ← inner.expression .lowest
    let _ ← accept .semicolon
    return .expression value

/-- Statements up to and with a closing brace, at most `n` of them. -/
def statements (inner : Inner) : Nat → Parser Block
  | 0 => return []
  | n + 1 => do
    let token ← peek
    match token.kind with
    | .rightBrace => advance; return []
    | .eof => fail (.unexpectedToken .rightBrace .eof token.position)
    | _ =>
      let first ← statement inner
      return first :: (← statements inner n)

/-- The statements between two braces, the first of which is next. -/
def block (inner : Inner) : Parser Block := do
  advance
  statements inner (← remaining)

/-- Gives up because of the nesting. -/
def refuse {α : Type} : Parser α := do fail (.tooDeep (← peek).position)

/-- The readers that may go `levels` further in. -/
def within : (levels : Nat) → Inner
  | 0 => ⟨fun _ => refuse, refuse⟩
  | levels + 1 => ⟨expression (within levels), block (within levels)⟩

end Parser

/-! ### Programs -/

/-- The tokens behind the statement that was given up: those behind the next semicolon. -/
def recover (tokens : List Token) : List Token :=
  match tokens.dropWhile fun t => t.kind ≠ .semicolon ∧ t.kind ≠ .eof with
  | [] => []
  | token :: rest => if token.kind = .semicolon then rest else token :: rest

/-- The statements that could be read of at most `n`, and an error for each of the others. -/
def parseStatements : Nat → List Token → Program × List ParseError
  | 0, _ => ([], [])
  | n + 1, tokens =>
    if (firstToken tokens).kind = .eof then ([], [])
    else
      match (Parser.statement (Parser.within maxNesting)).run tokens with
      | .ok (first, rest) =>
        let (program, errors) := parseStatements n rest
        (first :: program, errors)
      | .error failure =>
        let (program, errors) := parseStatements n (recover failure.rest)
        (program, failure.error :: errors)

theorem parseStatements_of_eof {tokens : List Token} (h : (firstToken tokens).kind = .eof)
    (n : Nat) : parseStatements n tokens = ([], []) := by
  cases n with
  | zero => rfl
  | succ n => rw [parseStatements, if_pos h]

theorem parseStatements_of_ok {tokens rest : List Token} {first : Statement}
    (h : (firstToken tokens).kind ≠ .eof)
    (hread : Parser.statement (Parser.within maxNesting) tokens = .ok (first, rest)) (n : Nat) :
    parseStatements (n + 1) tokens =
      (first :: (parseStatements n rest).1, (parseStatements n rest).2) := by
  rw [parseStatements, if_neg h, StateT.run, hread]

theorem parseStatements_of_error {tokens : List Token} {failure : Failure}
    (h : (firstToken tokens).kind ≠ .eof)
    (hread : Parser.statement (Parser.within maxNesting) tokens = .error failure) (n : Nat) :
    parseStatements (n + 1) tokens = ((parseStatements n (recover failure.rest)).1,
      failure.error :: (parseStatements n (recover failure.rest)).2) := by
  rw [parseStatements, if_neg h, StateT.run, hread]

/-- The statements that could be read, and an error for each of the others. -/
def parseTokens (tokens : List Token) : Program × List ParseError :=
  parseStatements tokens.length tokens

/-- The program a text is, or all its errors. -/
def parse (source : String) : Except (List ParseError) Program :=
  match parseTokens (tokens source) with
  | (program, []) => .ok program
  | (_, errors) => .error errors

/-- What is no program has an error. -/
theorem ne_nil_of_parse {source : String} {errors : List ParseError}
    (h : parse source = .error errors) : errors ≠ [] := by
  unfold parse at h
  generalize parseTokens (tokens source) = read at h
  obtain ⟨program, errors'⟩ := read
  cases errors' with
  | nil => cases h
  | cons e rest =>
    rw [← Except.error.inj h]
    exact List.cons_ne_nil e rest

end NovelScript.Expr
