import NovelScript.Report
import NovelScript.Script.Basic
import NovelScript.Script.Nesting
import NovelScript.Script.Tag

/-!
Tokens as a script. Whatever an author can mend is reported and passed over, so that one reading
reports as much as it can. When all tokens have been read, every jump must have its label, and
the conditionals must be sound.
-/

namespace NovelScript.Script

/-- A script that is being read. -/
structure Builder where
  script : Script := {}
  /-- The findings so far, and the place of each. -/
  findings : Array (Finding × Option Position) := #[]
  /-- The text of the command that has not been added yet. -/
  text : String := ""
  textStart : Position := {}
  /-- How far lines are indented, if they are. -/
  indent : Option Nat := none
  /-- No text stands on the current line. -/
  atLineStart : Bool := true
  /-- The variables known to be defined. -/
  declared : List String := []

namespace Builder

/-! ### Commands and findings -/

/-- Adds a finding at a place. -/
def report (finding : Finding) (place : Position) (b : Builder) : Builder :=
  { b with findings := b.findings.push (finding, some place) }

/-- Whether a line has just begun when the command has been added. -/
def lineStartAfter (before : Bool) : Command → Bool
  | .newLine | .newPage => true
  | .printText _ => false
  | _ => before

/-- Adds a command that was read at a place. -/
def add (command : Command) (place : Position) (b : Builder) : Builder :=
  { b with
    script :=
      { b.script with
        queue := (b.script.queue.enqueue command).2
        positions := b.script.positions.push place }
    atLineStart := lineStartAfter b.atLineStart command }

/-- Counts a variable as defined. -/
def declare (name : String) (b : Builder) : Builder := { b with declared := name :: b.declared }

/-- The program that an expression is; each of its errors is reported. -/
def checkExpression (source : String) (place : Position) (b : Builder) :
    Option Expr.Program × Builder :=
  match Expr.parse source with
  | .ok program => (some program, b)
  | .error errors => (none, errors.foldl (fun b e => b.report (.expressionSyntax source e) place) b)

/-! ### Text and labels -/

/-- Adds the text that is waiting, behind its indent if it begins a line. -/
def addText (b : Builder) : Builder :=
  if b.text.isEmpty then b
  else
    let indented := match b.indent with
      | some count => if b.atLineStart then b.add (.indent count) b.textStart else b
      | none => b
    { indented.add (.printText b.text) b.textStart with text := "" }

/-- Reads text, which waits for more. -/
def readText (content : String) (place : Position) (b : Builder) : Builder :=
  { b with
    text := b.text ++ content
    textStart := if b.text.isEmpty then place else b.textStart }

/-- Reads a label. It needs a name that no label before it has. -/
def readLabel (name headline : String) (place : Position) (b : Builder) : Builder :=
  if name.isEmpty then b.report .emptyLabelName place
  else if b.script.hasLabel name then b.report (.duplicateLabel name) place
  else
    let label : Label := ⟨name, headline, b.script.queue.size⟩
    let added := b.add (.label name headline) place
    { added with script := { added.script with labels := added.script.labels.push label } }

/-! ### Tags -/

/-- Reads a pause. Its time is a number or a variable. -/
def readWait (tag : Tag) (place : Position) (b : Builder) : Builder :=
  match tag.get? "time" with
  | none => b.report (.missingAttribute "wait" "time") place
  | some value =>
    match Text.readInt32? value with
    | some n => b.add (.waitTime (.literal n)) place
    | none =>
      if isVariableName value then
        let checked :=
          if value ∈ b.declared then b else b.report (.undefinedVariable value) place
        checked.add (.waitTime (.named value)) place
      else b.report (.invalidInteger "time" value) place

/-- Reads the definition of one variable, behind those read before it. -/
def readDefinition (place : Position) (read : Array Definition × Builder) (a : Attribute) :
    Array Definition × Builder :=
  let (definitions, b) := read
  if isVariableName a.name then
    match b.checkExpression a.value place with
    | (some _, checked) => (definitions.push ⟨a.name, a.value⟩, checked.declare a.name)
    | (none, checked) => (definitions, checked)
  else (definitions, b.report (.invalidVariableName a.name) place)

/-- Reads definitions of variables. -/
def readDefine (tag : Tag) (place : Position) (b : Builder) : Builder :=
  if tag.attributes.isEmpty then b.report (.missingAttribute "var" "name=value") place
  else
    let (definitions, read) := tag.attributes.foldl (readDefinition place) (#[], b)
    if definitions.isEmpty then read else read.add (.define definitions.toList) place

/-- Begins to indent lines, by one step unless the tag gives their number. -/
def readIndent (tag : Tag) (place : Position) (b : Builder) : Builder :=
  match tag.get? "count" with
  | none => { b with indent := some 1 }
  | some value =>
    match Text.readWord32? value with
    | some n => { b with indent := some n }
    | none => { b.report (.invalidInteger "count" value) place with indent := some 1 }

/-- Reads a jump. -/
def readJump (tag : Tag) (place : Position) (b : Builder) : Builder :=
  match tag.get? "target" with
  | some target => b.add (.jump target) place
  | none => b.report (.missingAttribute "jump" "target") place

/-- Reads the condition of a branch. A branch without one keeps its place, so that the marks
around it still match. -/
def readCondition (kind : TagKind) (tag : Tag) (place : Position) (b : Builder) :
    String × Builder :=
  match tag.get? "exp" with
  | some source => (source, (b.checkExpression source place).2)
  | none => ("", b.report (.missingAttribute kind.name "exp") place)

/-- Reads an expression to be evaluated. What it binds counts as defined. -/
def readEval (tag : Tag) (place : Position) (b : Builder) : Builder :=
  match tag.get? "exp" with
  | some source =>
    match b.checkExpression source place with
    | (some program, checked) =>
      (program.boundNames.foldl (fun b name => b.declare name) checked).add (.eval source) place
    | (none, checked) => checked.add (.eval source) place
  | none => b.report (.missingAttribute "eval" "exp") place

/-- Reads an expression to be shown. -/
def readEmbed (tag : Tag) (place : Position) (b : Builder) : Builder :=
  match tag.get? "exp" with
  | some source => (b.checkExpression source place).2.add (.embed source) place
  | none => b.report (.missingAttribute "embed" "exp") place

/-- The value that a setting of a style is read as, or else the finding. -/
def readSetting {α : Type} (read? : String → Option α) (finding : String → String → Finding)
    (name value : String) (place : Position) (b : Builder) : Option α × Builder :=
  match read? value with
  | some a => (some a, b)
  | none => (none, b.report (finding name value) place)

/-- The truth value of a setting. -/
def readBool? (value : String) : Option Bool :=
  if value = "true" then some true else if value = "false" then some false else none

/-- Reads one setting of a style, behind those read before it. -/
def readFontSetting (place : Position) (read : Font × Builder) (a : Attribute) : Font × Builder :=
  let (font, b) := read
  let integer := readSetting Text.readInt32? .invalidInteger a.name a.value place b
  let color := readSetting Color.read? .invalidColor a.name a.value place b
  let bool := readSetting readBool? .invalidBool a.name a.value place b
  match a.name with
  | "size" => ({ font with size := integer.1 }, integer.2)
  | "rubysize" => ({ font with rubySize := integer.1 }, integer.2)
  | "rubyoffset" => ({ font with rubyOffset := integer.1 }, integer.2)
  | "face" => ({ font with face := some a.value }, b)
  | "rubyface" => ({ font with rubyFace := some a.value }, b)
  | "color" => ({ font with color := color.1 }, color.2)
  | "shadowcolor" => ({ font with shadowColor := color.1 }, color.2)
  | "edgecolor" => ({ font with edgeColor := color.1 }, color.2)
  | "shadow" => ({ font with shadow := bool.1 }, bool.2)
  | "edge" => ({ font with edge := bool.1 }, bool.2)
  | "bold" => ({ font with bold := bool.1 }, bool.2)
  | _ => (font, b)

/-- Reads a style. -/
def readFont (tag : Tag) (place : Position) (b : Builder) : Builder :=
  let (font, read) := tag.attributes.foldl (readFontSetting place) ({}, b)
  read.add (.font font) place

/-- Reads a tag that means something. -/
def readKnownTag (kind : TagKind) (tag : Tag) (place : Position) (b : Builder) : Builder :=
  match kind with
  | .waitKey => b.add .waitKey place
  | .newLine => b.add .newLine place
  | .newPage => b.add .newPage place
  | .wait => b.readWait tag place
  | .define => b.readDefine tag place
  | .indent => b.readIndent tag place
  | .endIndent => { b with indent := none }
  | .jump => b.readJump tag place
  | .if =>
    let (condition, read) := b.readCondition kind tag place
    read.add (.if condition []) place
  | .elif =>
    let (condition, read) := b.readCondition kind tag place
    read.add (.elif condition) place
  | .else => b.add .else place
  | .endIf => b.add .endIf place
  | .eval => b.readEval tag place
  | .embed => b.readEmbed tag place
  | .font => b.readFont tag place
  | .resetFont => b.add (.font {}) place

/-- Reads a tag. The case of its name makes no difference. -/
def readTag (tag : Tag) (place : Position) (b : Builder) : Builder :=
  let name := Text.lowercase tag.name
  let kind := TagKind.find? name
  let warned := (tag.unknownAttributes kind).foldl
    (fun b a => b.report (.unknownAttribute name a.name) place) b
  match kind with
  | some kind => warned.readKnownTag kind tag place
  | none => warned.report (.unknownTag tag.name) place

/-! ### Scripts -/

/-- Reads a token. Text goes on behind a definition of variables, and behind nothing else. -/
def readToken (b : Builder) (token : Token) : Builder :=
  match token.kind with
  | .text content => b.readText content token.position
  | .label name headline => b.addText.readLabel name headline token.position
  | .tag tag =>
    if Text.lowercase tag.name = TagKind.define.name then b.readTag tag token.position
    else b.addText.readTag tag token.position

/-- Reports the jumps that have no label. -/
def checkJumps (b : Builder) : Builder :=
  (b.script.queue.commands.zip b.script.positions).foldl
    (fun b (command, place) =>
      match command with
      | .jump target =>
        if b.script.hasLabel target then b else b.report (.undefinedJumpTarget target) place
      | _ => b)
    b

/-- Gives the conditionals their marks, and reports their faults. -/
def checkNesting (b : Builder) : Builder :=
  let nesting := Nesting.ofQueue b.script.queue
  let script :=
    { b.script with
      queue := b.script.queue.relate nesting
      structuralErrors := nesting.faults.size }
  nesting.faults.foldl
    (fun b (finding, id) => b.report finding ((script.position? id).getD {}))
    { b with script }

/-- Reports how much was read. -/
def summarize (b : Builder) : Builder :=
  { b with
    findings := b.findings.push (.summary b.script.queue.size b.script.labels.size, none) }

end Builder

/-- The script that tokens are, and what was found in it. The variables `declared` count as
defined from the start. -/
def ofTokens (declared : List String) (tokens : List Token) :
    Script × List (Finding × Option Position) :=
  let start : Builder := { declared }
  let b := (tokens.foldl Builder.readToken start).addText.checkJumps.checkNesting.summarize
  (b.script, b.findings.toList)

end NovelScript.Script
