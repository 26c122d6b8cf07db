import NovelScript.Script.Token
import NovelScript.Text.CharClass

/-!
Script text as tokens. A label begins with a colon and a tag line with an at sign, both at the
start of a line behind blanks at most; a tag in brackets stands anywhere; all else is text. Line
breaks are no text, and a backslash makes a character with a meaning of its own plain text.

The text is read by one character at a time. What has been read of a token that is not finished
yet is kept in a `Mode`.
-/

namespace NovelScript.Script

/-! ### Unfinished tokens -/

/-- A run of text that may go on. Its texts are kept with the last character first. -/
structure TextRun where
  start : Position
  /-- The text that the run stands for. -/
  content : List Char
  /-- The text that the run was read from. -/
  literal : List Char
  /-- The line breaks read since; they are part of the literal if the run goes on. -/
  breaks : List Char
deriving Repr

/-- The token that a run is. -/
def TextRun.token (run : TextRun) : Token :=
  ⟨.text (String.ofList run.content.reverse), String.ofList run.literal.reverse, run.start⟩

/-- How a tag ends: with its bracket, or with its line. -/
inductive TagStyle
  | bracket | line
deriving DecidableEq, Repr

/-- A tag whose end has not been read. -/
structure OpenTag where
  style : TagStyle
  start : Position
  name : String := ""
  attributes : Array Attribute := #[]
  literal : String
deriving Repr

namespace OpenTag

/-- The tag with one more character of its literal. -/
def grow (c : Char) (tag : OpenTag) : OpenTag := { tag with literal := tag.literal.push c }

/-- The tag with one more attribute. -/
def add (name value : String) (tag : OpenTag) : OpenTag :=
  { tag with attributes := tag.attributes.push ⟨name, value⟩ }

/-- Whether a character only separates attributes. -/
def isGap (tag : OpenTag) (c : Char) : Bool :=
  match tag.style with
  | .bracket => Text.isBlank c
  | .line => c = ' ' || c = '\t' || c = '\r'

/-- The token that a tag is. -/
def token (tag : OpenTag) : Token :=
  ⟨.tag ⟨tag.name, tag.attributes.toList⟩, tag.literal, tag.start⟩

end OpenTag

/-- The part of a tag that is being read. -/
inductive TagPart
  | name
  /-- Between two attributes. -/
  | gap
  | attributeName (start : Position) (name : String)
  /-- Right behind the equals sign. -/
  | value (name : String)
  | bareValue (name value : String)
  | quotedValue (start : Position) (name value : String)
  /-- Right behind a backslash in a quoted value. -/
  | escapedValue (start : Position) (name value : String)
deriving Repr

/-- What is being read. -/
inductive Mode
  /-- The blanks at the start of a line. -/
  | lineStart (start : Position) (blanks : String)
  | text
  /-- Right behind a backslash in text. -/
  | escape (start : Position)
  | label (start : Position) (name literal : String)
  | headline (start : Position) (name headline literal : String)
  | tag (tag : OpenTag) (part : TagPart)
deriving Repr

/-- What has been read of a script. -/
structure Lexer where
  tokens : Array Token := #[]
  /-- The place of the next character. -/
  position : Position := {}
  run : Option TextRun := none
  mode : Mode := .lineStart {} ""
deriving Repr

namespace Lexer

/-! ### Text -/

/-- Adds text to the run: what it stands for and what it was read from. -/
def addText (content literal : List Char) (start : Position) (l : Lexer) : Lexer :=
  match l.run with
  | some run =>
    let longer : TextRun :=
      { run with
        content := content.reverse ++ run.content
        literal := literal.reverse ++ (run.breaks ++ run.literal)
        breaks := [] }
    { l with run := some longer }
  | none => { l with run := some ⟨start, content.reverse, literal.reverse, []⟩ }

/-- Passes over a line break. -/
def addBreak (c : Char) (l : Lexer) : Lexer :=
  { l with run := l.run.map fun run => { run with breaks := c :: run.breaks } }

/-- Ends the run. -/
def endRun (l : Lexer) : Lexer :=
  match l.run with
  | some run => { l with run := none, tokens := l.tokens.push run.token }
  | none => l

/-- The characters that a backslash turns into plain text. -/
def isEscapable (c : Char) : Bool := c = '[' || c = ']' || c = '\\' || c = '@' || c = ':'

/-- Reads one character of text. -/
def readText (c : Char) (l : Lexer) : Lexer :=
  if c = '\n' then { l.addBreak c with mode := .lineStart (l.position.next c) "" }
  else if c = '\r' then { l.addBreak c with mode := .text }
  else if c = '\\' then { l with mode := .escape l.position }
  else if c = '[' then
    { l.endRun with mode := .tag { style := .bracket, start := l.position, literal := "[" } .name }
  else { l.addText [c] [c] l.position with mode := .text }

/-- Adds the blanks at the start of a line, which turned out to be text. -/
def addBlanks (blanks : String) (start : Position) (l : Lexer) : Lexer :=
  if blanks.isEmpty then l else l.addText blanks.toList blanks.toList start

/-- Reads one character behind `blanks` at the start of a line. -/
def readLineStart (start : Position) (blanks : String) (c : Char) (l : Lexer) : Lexer :=
  if c = ' ' || c = '\t' then { l with mode := .lineStart start (blanks.push c) }
  else if c = ':' then { l.endRun with mode := .label l.position "" ":" }
  else if c = '@' then
    { l.endRun with mode := .tag { style := .line, start := l.position, literal := "@" } .name }
  else (l.addBlanks blanks start).readText c

/-- Reads one character behind a backslash. -/
def readEscape (start : Position) (c : Char) (l : Lexer) : Lexer :=
  if isEscapable c then { l.addText [c] ['\\', c] start with mode := .text }
  else (l.addText ['\\'] ['\\'] start).readText c

/-! ### Labels -/

/-- Ends a label. -/
def endLabel (start : Position) (name headline literal : String) (l : Lexer) : Lexer :=
  { l with
    tokens := l.tokens.push ⟨.label name (Text.trim headline), literal, start⟩
    mode := .text }

/-- Reads one character behind the colon of a label. -/
def readLabel (start : Position) (name literal : String) (c : Char) (l : Lexer) : Lexer :=
  if c = '|' then { l with mode := .headline start name "" (literal.push c) }
  else if c = ' ' || c = '\t' || c = '[' || c = '\n' || c = '\r' then
    (l.endLabel start name "" literal).readText c
  else { l with mode := .label start (name.push c) (literal.push c) }

/-- Reads one character behind the bar of a label. -/
def readHeadline (start : Position) (name headline literal : String) (c : Char) (l : Lexer) :
    Lexer :=
  if c = '\n' then (l.endLabel start name headline literal).readText c
  else { l with mode := .headline start name (headline.push c) (literal.push c) }

/-! ### Tags -/

/-- Ends a tag. -/
def endTag (tag : OpenTag) (l : Lexer) : Lexer :=
  { l with tokens := l.tokens.push tag.token, mode := .text }

/-- Goes on with a part of a tag, behind the character `c` of it. -/
def goOn (tag : OpenTag) (c : Char) (part : TagPart) (l : Lexer) : Except SyntaxError Lexer :=
  .ok { l with mode := .tag (tag.grow c) part }

/-- Reads one character of the name of an attribute. -/
def readAttribute (tag : OpenTag) (start : Position) (name : String) (c : Char) (l : Lexer) :
    Except SyntaxError Lexer :=
  if c = '=' then l.goOn tag c (.value name)
  else if Text.isBlank c || c = ']' then .error (.missingEquals name start)
  else l.goOn tag c (.attributeName start (name.push c))

/-- Reads one character between two attributes. -/
def readGap (tag : OpenTag) (c : Char) (l : Lexer) : Except SyntaxError Lexer :=
  if tag.isGap c then l.goOn tag c .gap
  else if tag.style = .bracket && c = ']' then .ok (l.endTag (tag.grow c))
  else if tag.style = .line && c = '\n' then .ok ((l.endTag tag).readText c)
  else l.readAttribute tag l.position "" c

/-- Reads one character of the name of a tag. -/
def readName (tag : OpenTag) (c : Char) (l : Lexer) : Except SyntaxError Lexer :=
  if Text.isBlank c || c = ']' || c = '[' then
    if tag.name.isEmpty then .error (.emptyTagName tag.start) else l.readGap tag c
  else l.goOn { tag with name := tag.name.push c } c .name

/-- Reads one character of a value without quotes. -/
def readBareValue (tag : OpenTag) (name value : String) (c : Char) (l : Lexer) :
    Except SyntaxError Lexer :=
  if Text.isBlank c || c = ']' then l.readGap (tag.add name value) c
  else l.goOn tag c (.bareValue name (value.push c))

/-- Reads one character of a value in quotes. -/
def readQuotedValue (tag : OpenTag) (start : Position) (name value : String) (c : Char)
    (l : Lexer) : Except SyntaxError Lexer :=
  if c = '"' then l.goOn (tag.add name value) c .gap
  else if c = '\\' then l.goOn tag c (.escapedValue start name value)
  else l.goOn tag c (.quotedValue start name (value.push c))

/-- Reads one character of a tag. -/
def readTag (tag : OpenTag) (part : TagPart) (c : Char) (l : Lexer) : Except SyntaxError Lexer :=
  match part with
  | .name => l.readName tag c
  | .gap => l.readGap tag c
  | .attributeName start name => l.readAttribute tag start name c
  | .value name =>
    if c = '"' then l.goOn tag c (.quotedValue l.position name "")
    else l.readBareValue tag name "" c
  | .bareValue name value => l.readBareValue tag name value c
  | .quotedValue start name value => l.readQuotedValue tag start name value c
  | .escapedValue start name value =>
    if c = '"' || c = '\\' then l.goOn tag c (.quotedValue start name (value.push c))
    else l.readQuotedValue tag start name (value.push '\\') c

/-! ### Scripts -/

/-- Reads one character as what is being read asks for. -/
def readInMode (l : Lexer) (c : Char) : Except SyntaxError Lexer :=
  match l.mode with
  | .lineStart start blanks => .ok (l.readLineStart start blanks c)
  | .text => .ok (l.readText c)
  | .escape start => .ok (l.readEscape start c)
  | .label start name literal => .ok (l.readLabel start name literal c)
  | .headline start name headline literal => .ok (l.readHeadline start name headline literal c)
  | .tag tag part => l.readTag tag part c

/-- Reads one character. -/
def read (l : Lexer) (c : Char) : Except SyntaxError Lexer :=
  (l.readInMode c).map fun next => { next with position := l.position.next c }

/-- Ends a tag at the end of the text. Only a tag line may end there. -/
def finishTag (tag : OpenTag) (l : Lexer) : Except SyntaxError Lexer :=
  match tag.style with
  | .bracket => .error (.unterminatedTag tag.start)
  | .line => .ok (l.endTag tag)

/-- Ends what is being read at the end of the text. -/
def finishMode (l : Lexer) : Except SyntaxError Lexer :=
  match l.mode with
  | .lineStart start blanks => .ok (l.addBlanks blanks start)
  | .text => .ok l
  | .escape start => .ok (l.addText ['\\'] ['\\'] start)
  | .label start name literal => .ok (l.endLabel start name "" literal)
  | .headline start name headline literal => .ok (l.endLabel start name headline literal)
  | .tag tag .name =>
    if tag.name.isEmpty then .error (.emptyTagName tag.start) else l.finishTag tag
  | .tag tag .gap => l.finishTag tag
  | .tag _ (.attributeName start name) => .error (.missingEquals name start)
  | .tag tag (.value name) => l.finishTag (tag.add name "")
  | .tag tag (.bareValue name value) => l.finishTag (tag.add name value)
  | .tag _ (.quotedValue start _ _) => .error (.unterminatedQuote start)
  | .tag _ (.escapedValue start _ _) => .error (.unterminatedQuote start)

/-- The tokens that have been read, at the end of the text. -/
def finish (l : Lexer) : Except SyntaxError (List Token) :=
  l.finishMode.map fun last => last.endRun.tokens.toList

end Lexer

/-- The tokens of a script, or its first malformed tag. -/
def tokens (source : String) : Except SyntaxError (List Token) :=
  (source.toList.foldlM Lexer.read {}).bind Lexer.finish

end NovelScript.Script
