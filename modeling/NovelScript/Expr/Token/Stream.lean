import NovelScript.Expr.Token.Lexer
import NovelScript.Text.Scanner

/-!
The tokens of an expression text one at a time.
-/

namespace NovelScript.Expr

/-- What gives the tokens of a text one after the other. -/
structure Lexer where
  scanner : Scanner
  /-- Whether the end of the text has been given. -/
  done : Bool
deriving Repr

namespace Lexer

/-- Before the first token of a text. -/
def ofString (source : String) : Lexer := ⟨Scanner.ofString source, false⟩

/-- Reads the next token, which at the end of the text is the end itself. -/
def nextToken (s : Scanner) : Token × Scanner :=
  let start := s.skipWhile Text.isBlank
  match start.rest with
  | [] => (⟨.eof, "", start.position⟩, start)
  | c :: cs =>
    let lexeme := Lexeme.read c cs
    (⟨lexeme.kind, lexeme.text, start.position⟩, start.skip (lexeme.more + 1))

/-- Gives the next token, and nothing once the end has been given. -/
def next (l : Lexer) : Option Token × Lexer :=
  if l.done then (none, l)
  else
    let (t, scanner) := nextToken l.scanner
    (some t, ⟨scanner, t.kind = .eof⟩)

/-- What is given behind the first `n` tokens. -/
def nth : Nat → Lexer → Option Token
  | 0, l => l.next.1
  | n + 1, l => nth n l.next.2

end Lexer
end NovelScript.Expr
