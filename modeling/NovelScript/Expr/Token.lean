import NovelScript.Text.Position

/-!
The tokens of the expression language.
-/

namespace NovelScript.Expr

/-- What a token is. -/
inductive TokenKind
  /-- Text that is no token, such as a lone `&` or a string that is not closed. -/
  | illegal
  /-- The end of the text. -/
  | eof
  | identifier | integer | double | string
  | assign | plus | minus | bang | asterisk | slash
  | less | greater | lessEqual | greaterEqual | equal | notEqual | and | or
  | comma | semicolon
  | leftParen | rightParen | leftBrace | rightBrace | leftBracket | rightBracket
  | function | let | true | false | if | else | return
deriving DecidableEq, Repr, Inhabited

namespace TokenKind

/-- How messages name a kind of token. -/
def name : TokenKind → String
  | illegal => "ILLEGAL"
  | eof => "EOF"
  | identifier => "IDENT"
  | integer => "INT"
  | double => "DOUBLE"
  | string => "STRING"
  | assign => "="
  | plus => "+"
  | minus => "-"
  | bang => "!"
  | asterisk => "*"
  | slash => "/"
  | less => "<"
  | greater => ">"
  | lessEqual => "<="
  | greaterEqual => ">="
  | equal => "=="
  | notEqual => "!="
  | and => "&&"
  | or => "||"
  | comma => ","
  | semicolon => ";"
  | leftParen => "("
  | rightParen => ")"
  | leftBrace => "\x7b"
  | rightBrace => "\x7d"
  | leftBracket => "["
  | rightBracket => "]"
  | function => "FUNCTION"
  | «let» => "LET"
  | true => "TRUE"
  | false => "FALSE"
  | «if» => "IF"
  | «else» => "ELSE"
  | «return» => "RETURN"

/-- The keyword a word is, if it is one. -/
def keyword? (word : String) : Option TokenKind :=
  match word with
  | "function" => some .function
  | "let" => some .let
  | "true" => some .true
  | "false" => some .false
  | "if" => some .if
  | "else" => some .else
  | "return" => some .return
  | _ => none

end TokenKind

/-- A token: its kind, its text (of a string, what it stands for) and its place. -/
structure Token where
  kind : TokenKind
  text : String
  position : Position
deriving DecidableEq, Repr, Inhabited

end NovelScript.Expr
