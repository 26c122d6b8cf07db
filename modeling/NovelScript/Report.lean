import NovelScript.Expr.Evaluation
import NovelScript.Report.Catalog
import NovelScript.Report.Log
import NovelScript.Script.Command
import NovelScript.Script.Token

/-!
What there is to report about a script and its run. A report says what is the case; only the
catalog puts it into words.
-/

namespace NovelScript

/-- Why an expression has no value. -/
inductive EvalFailure
  | fault (fault : Expr.Fault)
  | malformed (errors : List Expr.ParseError)
deriving DecidableEq, Repr

/-- A failure in words. -/
def EvalFailure.message : EvalFailure → String
  | fault f => f.message
  | malformed errors => "; ".intercalate (errors.map Expr.ParseError.message)

/-- Something about a script that its author is told. -/
inductive Finding
  | duplicateLabel (name : String)
  | emptyLabelName
  | missingAttribute (tag name : String)
  | unknownTag (tag : String)
  | unknownAttribute (tag name : String)
  | undefinedVariable (name : String)
  | undefinedJumpTarget (target : String)
  | invalidInteger (name value : String)
  | invalidBool (name value : String)
  | invalidColor (name value : String)
  | invalidVariableName (name : String)
  | expressionSyntax (source : String) (error : Expr.ParseError)
  | unterminatedIf
  | multipleElse
  | elifAfterElse
  /-- A branch or an end outside of every conditional. -/
  | strayBranch (tag : String)
  | evaluationFailed (source : String) (failure : EvalFailure)
  | waitNotInteger (name : String) (type : Expr.ValueType)
  | summary (commands labels : Nat)
deriving DecidableEq, Repr

namespace Finding

/-- The message that tells a finding. -/
def message : Finding → Message
  | duplicateLabel _ => .duplicateLabel
  | emptyLabelName => .emptyLabelName
  | missingAttribute _ _ => .missingAttribute
  | unknownTag _ => .unknownTag
  | unknownAttribute _ _ => .unknownAttribute
  | undefinedVariable _ => .undefinedVariable
  | undefinedJumpTarget _ => .undefinedJumpTarget
  | invalidInteger _ _ => .invalidInteger
  | invalidBool _ _ => .invalidBool
  | invalidColor _ _ => .invalidColor
  | invalidVariableName _ => .invalidVariableName
  | expressionSyntax _ _ => .expressionSyntax
  | unterminatedIf => .unterminatedIf
  | multipleElse => .multipleElse
  | elifAfterElse => .elifAfterElse
  | strayBranch _ => .strayBranch
  | evaluationFailed _ _ => .evaluationFailed
  | waitNotInteger _ _ => .waitNotInteger
  | summary _ _ => .parseSummary

/-- The arguments of the message. -/
def arguments : Finding → List String
  | duplicateLabel name => [name]
  | missingAttribute tag name => [tag, name]
  | unknownTag tag => [tag]
  | unknownAttribute tag name => [tag, name]
  | undefinedVariable name => [name]
  | undefinedJumpTarget target => [target]
  | invalidInteger name value => [name, value]
  | invalidBool name value => [name, value]
  | invalidColor name value => [name, value]
  | invalidVariableName name => [name]
  | expressionSyntax source error => [source, error.message]
  | strayBranch tag => [tag]
  | evaluationFailed source failure => [source, failure.message]
  | waitNotInteger name type => [name, type.name]
  | summary commands labels => [toString commands, toString labels]
  | emptyLabelName | unterminatedIf | multipleElse | elifAfterElse => []

/-- How serious a finding is. -/
def severity : Finding → Severity
  | unknownTag _ | unknownAttribute _ _ => .warning
  | summary _ _ => .information
  | _ => .error

end Finding

/-- Something to report: a finding and its place, or a step of the work. -/
inductive Report
  | finding (finding : Finding) (position : Option Position)
  /-- The script cannot be read. -/
  | malformed (error : Script.SyntaxError)
  | parsing (tokens : Nat)
  | running (commands : Nat)
  | finished
  | assigned (name value : String)
  | jumping (target : String) (label : Script.CommandId)
  | jumpMissing (target : String)
deriving DecidableEq, Repr

namespace Report

/-- Whether the report tells the author of an error. -/
def isError : Report → Bool
  | finding f _ => f.severity = .error
  | malformed _ => true
  | _ => false

/-- A report in words. -/
def record (catalog : Catalog) : Report → Record
  | finding f position => .entry ⟨f.severity, catalog.format f.message f.arguments, position⟩
  | malformed e => .entry ⟨.error, e.message, some e.position⟩
  | parsing tokens => .note .debug ("parsing " ++ toString tokens ++ " script tokens")
  | running commands => .note .debug ("running " ++ toString commands ++ " commands")
  | finished => .note .debug "script finished"
  | assigned name value => .note .debug (name ++ " = " ++ value)
  | jumping target label =>
    .note .debug ("jump to " ++ target ++ " (" ++ Script.showId label ++ ")")
  | jumpMissing target => .note .warn ("jump target " ++ target ++ " not found; continuing")

end Report

/-- Adds reports in words. -/
def Log.addReports (catalog : Catalog) (reports : List Report) (log : Log) : Log :=
  reports.foldl (fun log r => log.push (r.record catalog)) log

/-- Reports add the entries that they are, behind those there were. -/
theorem Log.entries_addReports (catalog : Catalog) (reports : List Report) (log : Log) :
    (log.addReports catalog reports).entries =
      log.entries ++ reports.filterMap fun r => Record.entry? (r.record catalog) := by
  induction reports generalizing log with
  | nil => simp [addReports]
  | cons r reports ih =>
    have hrest := ih (log.push (r.record catalog))
    rw [addReports, List.foldl_cons]
    refine hrest.trans ?_
    cases hr : r.record catalog <;> simp [hr, Record.entry?]

end NovelScript
