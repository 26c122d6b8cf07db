import NovelScript.Expr.Token
import NovelScript.Text.CharClass

/-!
Expression text as tokens. Blanks separate tokens; otherwise a token is as long as it can be.
-/

namespace NovelScript.Expr

/-- The characters a word may begin with. -/
def isWordStart (edition : Text.Edition) (c : Char) : Bool :=
  c = '_' || Text.isAlphabetic edition c

/-- The characters a word may go on with. -/
def isWordPart (edition : Text.Edition) (c : Char) : Bool :=
  c = '_' || Text.isAlphabetic edition c || Text.isNumeric edition c

/-- The edition whose letters and numbers identifiers are made of. -/
def edition : Text.Edition := .seventeen

/-- One token as read from the characters at hand, place aside. -/
structure Lexeme where
  kind : TokenKind
  text : String
  /-- How many characters it has behind its first one. -/
  more : Nat
deriving DecidableEq, Repr

namespace Lexeme

/-- The character that a backslash and `c` stand for in a string. -/
def unescape (c : Char) : Char :=
  if c = 'n' then '\n' else if c = 't' then '\t' else c

/-- The content of a string whose opening quote has been read, and the number of characters up to
and with its closing quote. -/
def string? (quote : Char) : List Char → Option (List Char × Nat)
  | [] => none
  | ['\\'] => none
  | '\\' :: c :: cs => (string? quote cs).map fun (content, n) => (unescape c :: content, n + 2)
  | c :: cs =>
    if c = quote then some ([], 1)
    else (string? quote cs).map fun (content, n) => (c :: content, n + 1)

/-- A string; one that is not closed is illegal as a whole. -/
def string (quote : Char) (rest : List Char) : Lexeme :=
  match string? quote rest with
  | some (content, n) => ⟨.string, String.ofList content, n⟩
  | none => ⟨.illegal, String.ofList (quote :: rest), rest.length⟩

/-- A number: digits, and if a point and a digit follow, these and all further digits. -/
def number (first : Char) (rest : List Char) : Lexeme :=
  let whole := rest.takeWhile Char.isDigit
  let integer : Lexeme := ⟨.integer, String.ofList (first :: whole), whole.length⟩
  match rest.drop whole.length with
  | '.' :: behind =>
    let places := behind.takeWhile Char.isDigit
    if places.isEmpty then integer
    else
      ⟨.double, String.ofList (first :: whole ++ '.' :: places), whole.length + 1 + places.length⟩
  | _ => integer

/-- A keyword or an identifier. -/
def word (first : Char) (rest : List Char) : Lexeme :=
  let more := rest.takeWhile (isWordPart edition)
  let text := String.ofList (first :: more)
  ⟨(TokenKind.keyword? text).getD .identifier, text, more.length⟩

/-- The kind of the token that `first` makes with an equals sign or a second `&` or `|`. -/
def pair? (first second : Char) : Option TokenKind :=
  match first, second with
  | '=', '=' => some .equal
  | '!', '=' => some .notEqual
  | '<', '=' => some .lessEqual
  | '>', '=' => some .greaterEqual
  | '&', '&' => some .and
  | '|', '|' => some .or
  | _, _ => none

/-- The kind of the token that a character is by itself. -/
def single (c : Char) : TokenKind :=
  match c with
  | '=' => .assign
  | '!' => .bang
  | '<' => .less
  | '>' => .greater
  | '+' => .plus
  | '-' => .minus
  | '*' => .asterisk
  | '/' => .slash
  | ',' => .comma
  | ';' => .semicolon
  | '(' => .leftParen
  | ')' => .rightParen
  | '{' => .leftBrace
  | '}' => .rightBrace
  | '[' => .leftBracket
  | ']' => .rightBracket
  | _ => .illegal

/-- An operator, a delimiter or a character that is no token. -/
def symbol (first : Char) (rest : List Char) : Lexeme :=
  match rest.head?.bind fun second => (pair? first second).map (·, second) with
  | some (kind, second) => ⟨kind, String.ofList [first, second], 1⟩
  | none => ⟨single first, String.ofList [first], 0⟩

/-- The token that begins with `first`. -/
def read (first : Char) (rest : List Char) : Lexeme :=
  if first.isDigit then number first rest
  else if first = '"' || first = '\'' then string first rest
  else if isWordStart edition first then word first rest
  else symbol first rest

end Lexeme

/-- The tokens of the characters `cs` at the place `p`, the first `skip` of which belong to the
token before. The last token is the end itself. -/
def tokensFrom (skip : Nat) (p : Position) : List Char → List Token
  | [] => [⟨.eof, "", p⟩]
  | c :: cs =>
    match skip with
    | skip + 1 => tokensFrom skip (p.next c) cs
    | 0 =>
      if Text.isBlank c then tokensFrom 0 (p.next c) cs
      else
        let lexeme := Lexeme.read c cs
        ⟨lexeme.kind, lexeme.text, p⟩ :: tokensFrom lexeme.more (p.next c) cs

/-- The tokens of a text. -/
def tokens (source : String) : List Token := tokensFrom 0 {} source.toList

end NovelScript.Expr
