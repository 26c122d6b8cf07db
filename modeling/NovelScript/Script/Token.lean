import NovelScript.Text.Position

/-!
The tokens of a script: runs of text, labels and tags.
-/

namespace NovelScript.Script

/-- A name with a value, as tags carry them. -/
structure Attribute where
  name : String
  value : String
deriving DecidableEq, Repr

/-- A tag with its attributes in the order written. -/
structure Tag where
  name : String
  attributes : List Attribute
deriving DecidableEq, Repr

/-- The value of the first attribute with a name. -/
def Tag.get? (tag : Tag) (name : String) : Option String :=
  (tag.attributes.find? (·.name = name)).map Attribute.value

/-- What a token is. -/
inductive TokenKind
  | text (content : String)
  | label (name headline : String)
  | tag (tag : Tag)
deriving DecidableEq, Repr

/-- A token: what it is, the text it was read from, and its place. -/
structure Token where
  kind : TokenKind
  literal : String
  position : Position
deriving DecidableEq, Repr

/-- A malformed tag. It makes the whole script unreadable. -/
inductive SyntaxError
  /-- A tag in brackets has no closing bracket. -/
  | unterminatedTag (position : Position)
  /-- No name stands behind the bracket or the at sign. -/
  | emptyTagName (position : Position)
  /-- No equals sign stands behind the name of an attribute. -/
  | missingEquals (name : String) (position : Position)
  /-- A quoted value has no closing quote. -/
  | unterminatedQuote (position : Position)
deriving DecidableEq, Repr

namespace SyntaxError

/-- The place of the error. -/
def position : SyntaxError → Position
  | unterminatedTag p | emptyTagName p | missingEquals _ p | unterminatedQuote p => p

/-- The error in words, its place aside. -/
def reason : SyntaxError → String
  | unterminatedTag _ => "tag is not closed by ']'"
  | emptyTagName _ => "tag has no name"
  | missingEquals name _ => "attribute '" ++ name ++ "' has no '=value'"
  | unterminatedQuote _ => "quoted attribute value is not closed"

/-- The error in words behind its place. -/
def message (e : SyntaxError) : String := toString e.position ++ ": " ++ e.reason

end SyntaxError
end NovelScript.Script
