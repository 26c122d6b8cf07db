import NovelScript.Text.Numeral

/-!
The wording of messages. A message has a template with numbered places for its arguments, and a
host may put another template in place of it.
-/

namespace NovelScript

/-- The messages. -/
inductive Message
  | duplicateLabel | emptyLabelName | missingAttribute | unknownTag | unknownAttribute
  | undefinedVariable | undefinedJumpTarget | invalidInteger | invalidBool | invalidColor
  | invalidVariableName | expressionSyntax | unterminatedIf | multipleElse | misplacedElse
  | elifAfterElse | strayBranch | evaluationFailed | waitNotInteger | parseSummary
deriving DecidableEq, Repr

/-- The template that a message has unless a host replaces it. -/
def Message.template : Message → String
  | duplicateLabel => "'\x7b0\x7d' is already used as label name"
  | emptyLabelName => "label has no name"
  | missingAttribute => "[\x7b0\x7d] requires attribute '\x7b1\x7d'"
  | unknownTag => "unknown tag [\x7b0\x7d] ignored"
  | unknownAttribute => "unknown attribute '\x7b1\x7d' in [\x7b0\x7d] ignored"
  | undefinedVariable => "variable '\x7b0\x7d' is not defined"
  | undefinedJumpTarget => "jump target '\x7b0\x7d' is not defined"
  | invalidInteger => "attribute '\x7b0\x7d' expects an integer, got '\x7b1\x7d'"
  | invalidBool => "attribute '\x7b0\x7d' expects true or false, got '\x7b1\x7d'"
  | invalidColor => "attribute '\x7b0\x7d' expects a colour like 0xRRGGBB, got '\x7b1\x7d'"
  | invalidVariableName => "'\x7b0\x7d' is not a valid variable name"
  | expressionSyntax => "syntax error in expression '\x7b0\x7d': \x7b1\x7d"
  | unterminatedIf => "[if] is not closed by [endif]"
  | multipleElse => "[if] has more than one [else]"
  | misplacedElse => "[else] must be the last branch before [endif]"
  | elifAfterElse => "[elif] cannot follow [else]"
  | strayBranch => "[\x7b0\x7d] without a matching [if]"
  | evaluationFailed => "evaluating '\x7b0\x7d' failed: \x7b1\x7d"
  | waitNotInteger => "wait time '\x7b0\x7d' is \x7b1\x7d, not INTEGER"
  | parseSummary => "parsed \x7b0\x7d commands and \x7b1\x7d labels"

/-- The templates in force. -/
structure Catalog where
  template : Message → String := Message.template

namespace Catalog

/-- Replaces the template of a message. -/
def set (message : Message) (template : String) (catalog : Catalog) : Catalog :=
  ⟨fun m => if m = message then template else catalog.template m⟩

/-- The argument that the text behind an opening brace asks for, and the number of characters up
to and with the closing brace. -/
def argument? (arguments : List String) (cs : List Char) : Option (String × Nat) :=
  let inside := cs.takeWhile (· ≠ '}')
  if inside.length < cs.length then
    ((Text.readWord64? (String.ofList inside)).bind fun n => arguments[n]?).map
      (·, inside.length + 1)
  else none

/-- The template `cs`, behind its first `skip` characters, with its places filled in. A brace
that asks for no argument stays as it is. -/
def fill (arguments : List String) (skip : Nat) : List Char → List Char
  | [] => []
  | c :: cs =>
    match skip with
    | skip + 1 => fill arguments skip cs
    | 0 =>
      if c = '{' then
        match argument? arguments cs with
        | some (text, n) => text.toList ++ fill arguments n cs
        | none => c :: fill arguments 0 cs
      else c :: fill arguments 0 cs

/-- A message with its arguments. -/
def format (catalog : Catalog) (message : Message) (arguments : List String) : String :=
  String.ofList (fill arguments 0 (catalog.template message).toList)

end Catalog
end NovelScript
