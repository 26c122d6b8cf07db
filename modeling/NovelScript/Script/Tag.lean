import NovelScript.Expr.Token.Lexer
import NovelScript.Script.Token

/-!
The tags a script may use, and the attributes of each.
-/

namespace NovelScript.Script

/-- The tags that mean something. -/
inductive TagKind
  | waitKey | newLine | newPage | wait | define | indent | endIndent | jump
  | if | elif | else | endIf | eval | embed | font | resetFont
deriving DecidableEq, Repr

namespace TagKind

/-- The name of a tag, in small letters. -/
def name : TagKind → String
  | waitKey => "l"
  | newLine => "r"
  | newPage => "cm"
  | wait => "wait"
  | define => "var"
  | indent => "indent"
  | endIndent => "endindent"
  | jump => "jump"
  | «if» => "if"
  | elif => "elif"
  | «else» => "else"
  | endIf => "endif"
  | eval => "eval"
  | embed => "embed"
  | font => "font"
  | resetFont => "resetfont"

/-- All of them. -/
def all : List TagKind :=
  [waitKey, newLine, newPage, wait, define, indent, endIndent, jump, «if», elif, «else», endIf,
    eval, embed, font, resetFont]

/-- The tag with a name in small letters. -/
def find? (name : String) : Option TagKind := all.find? (·.name = name)

/-- The attributes that a tag takes; `none` stands for any. -/
def attributes? : TagKind → Option (List String)
  | wait => some ["time"]
  | indent => some ["count"]
  | jump => some ["target"]
  | «if» | elif | eval | embed => some ["exp"]
  | font => some ["size", "face", "color", "rubysize", "rubyoffset", "rubyface", "shadow",
      "shadowcolor", "edge", "edgecolor", "bold"]
  | define => none
  | _ => some []

end TagKind

/-- The attributes of a tag that it does not take. A tag that means nothing takes none. -/
def Tag.unknownAttributes (tag : Tag) (kind : Option TagKind) : List Attribute :=
  match kind.elim (some []) TagKind.attributes? with
  | some known => tag.attributes.filter (·.name ∉ known)
  | none => []

/-- The edition whose letters and numbers the variables of tags are named with. Identifiers in
expressions may also use what later editions have added. -/
def nameEdition : Text.Edition := .sixteen

/-- Whether a tag may use a name for a variable: an identifier that is no keyword. -/
def isVariableName (name : String) : Bool :=
  match name.toList with
  | [] => false
  | first :: rest =>
    Expr.isWordStart nameEdition first && rest.all (Expr.isWordPart nameEdition) &&
      (Expr.TokenKind.keyword? name).isNone

end NovelScript.Script
