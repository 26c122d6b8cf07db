import NovelScript.Script.Font
import NovelScript.Text.Quoted

/-!
The commands of a script. Labels, tags and runs of text each become one; they are executed in
order unless a jump or a branch says otherwise.
-/

namespace NovelScript.Script

/-- The number of a command: how many stand before it. -/
abbrev CommandId := Nat

/-- How listings name a command. -/
def showId (id : CommandId) : String := "#" ++ toString id

/-! ### Waiting times -/

/-- A time in milliseconds: a number, or the name of a variable that is looked up once. From then
on the time keeps the value found, whatever becomes of the variable. -/
structure WaitTime where
  /-- Empty for a number. -/
  name : String
  value : Option Int32
deriving DecidableEq, Repr

namespace WaitTime

/-- A number. -/
def literal (value : Int32) : WaitTime := ⟨"", some value⟩

/-- The value that a variable will have. -/
def named (name : String) : WaitTime := ⟨name, none⟩

/-- Whether the value is known. -/
def isResolved (time : WaitTime) : Bool := time.value.isSome

/-- The value, looked up if it is not known yet, and the time that knows it. A lookup that fails
leaves the time as it was. -/
def resolve {ε : Type} (time : WaitTime) (lookup : String → Except ε Int32) :
    Except ε Int32 × WaitTime :=
  match time.value with
  | some value => (.ok value, time)
  | none =>
    match lookup time.name with
    | .ok value => (.ok value, { time with value := some value })
    | .error e => (.error e, time)

/-- A time as text. -/
def «show» (time : WaitTime) : String :=
  match time.value with
  | some value =>
    if time.name.isEmpty then toString value.toInt else time.name ++ "=" ++ toString value.toInt
  | none => time.name

end WaitTime

/-! ### Commands -/

/-- A variable to be set to the value of an expression. -/
structure Definition where
  name : String
  source : String
deriving DecidableEq, Repr

/-- A command. Expressions are kept as they were written. -/
inductive Command
  | printText (text : String)
  | newLine
  | waitKey
  | newPage
  | indent (count : Nat)
  | waitTime (time : WaitTime)
  | define (definitions : List Definition)
  | jump (target : String)
  | label (name headline : String)
  /-- `related` lists the other marks of the same conditional in order, the end among them; it
  is empty if the conditional is broken. -/
  | «if» (condition : String) (related : List CommandId)
  | elif (condition : String)
  | «else»
  | endIf
  | eval (source : String)
  | embed (source : String)
  | font (font : Font)
deriving DecidableEq, Repr

/-- The kinds of commands. -/
inductive CommandKind
  | printText | newLine | waitKey | newPage | indent | waitTime | define | jump | label
  | if | elif | else | endIf | eval | embed | font
deriving DecidableEq, Repr

namespace Command

/-- The kind of a command. -/
def kind : Command → CommandKind
  | printText _ => .printText
  | newLine => .newLine
  | waitKey => .waitKey
  | newPage => .newPage
  | indent _ => .indent
  | waitTime _ => .waitTime
  | define _ => .define
  | jump _ => .jump
  | label _ _ => .label
  | .if _ _ => .if
  | elif _ => .elif
  | .else => .else
  | endIf => .endIf
  | eval _ => .eval
  | embed _ => .embed
  | font _ => .font

/-- A command as listings show it. -/
def «show» : Command → String
  | printText text => "text " ++ Text.quote text
  | newLine => "newline"
  | waitKey => "waitkey"
  | newPage => "newpage"
  | indent count => "indent " ++ toString count
  | waitTime time => "wait " ++ time.show
  | define definitions =>
    "var" ++ String.join (definitions.map fun d => " " ++ d.name ++ "=" ++ d.source)
  | jump target => "jump " ++ target
  | label name headline =>
    if headline.isEmpty then "label " ++ name else "label " ++ name ++ " " ++ Text.quote headline
  | .if condition related =>
    "if " ++ condition ++
      if related.isEmpty then "" else " -> " ++ ", ".intercalate (related.map showId)
  | elif condition => "elif " ++ condition
  | .else => "else"
  | endIf => "endif"
  | eval source => "eval " ++ source
  | embed source => "embed " ++ source
  | font f => "font " ++ f.show

end Command
end NovelScript.Script
