import LoggerLint.Syntax.Node
import LoggerLint.Text.CodePoint

/-!
# Reports

A report tells of one problem in one file: which rule found it, where, and how to mend it. The fix of a
report is a list of edits that only make sense together.
-/

namespace LoggerLint

/-- Replace the bytes from `start` up to `stop` by a text. -/
structure Edit where
  /-- the offset of the first byte to replace -/
  start : Nat
  /-- the offset after the last byte to replace -/
  stop : Nat
  /-- what to put there -/
  text : Text
  deriving DecidableEq, Repr, Inhabited

namespace Edit

/-- An edit that replaces nothing inserts its text. -/
def isInsertion (edit : Edit) : Bool :=
  edit.start == edit.stop

end Edit

/-- Lines and columns of a piece of source, counted from one. -/
structure SourceSpan where
  /-- the line of its first byte -/
  startLine : Int
  /-- the column of its first byte -/
  startCol : Int
  /-- the line of the byte after it -/
  endLine : Int
  /-- the column of the byte after it -/
  endCol : Int
  deriving DecidableEq, Repr, Inhabited

namespace SourceSpan

/-- The lines and columns of a node. -/
def ofNode (source : Bytes) (node : Node) : SourceSpan :=
  let start := Position.ofOffset source node.start
  let stop := Position.ofOffset source node.stop
  ⟨start.line, start.col, stop.line, stop.col⟩

end SourceSpan

/-- What kind of complaint a rule makes. -/
inductive RuleType where
  | problem | suggestion | layout
  deriving DecidableEq, Repr, Inhabited

namespace RuleType

/-- The word for a kind of complaint. -/
def word : RuleType → String
  | .problem => "problem"
  | .suggestion => "suggestion"
  | .layout => "layout"

/-- The kind of complaint that a word names. -/
def ofWord? (word : String) : Option RuleType :=
  [RuleType.problem, .suggestion, .layout].find? (·.word == word)

end RuleType

/-- One problem in one file. -/
structure Report where
  /-- the version of the report's layout -/
  schemaVersion : Int := 1
  /-- the rule that found the problem -/
  ruleId : String
  /-- the kind of complaint -/
  type : RuleType := .problem
  /-- the file, as shown -/
  path : String
  /-- what is wrong -/
  message : String
  /-- where the offending name stands -/
  loc : SourceSpan
  /-- where the reported piece of source stands -/
  nodeSpan : SourceSpan
  /-- the fix; no edits mean no fix -/
  edits : List Edit := []
  deriving DecidableEq, Repr, Inhabited

namespace Report

/-- Does the report come with a fix? -/
def fixable (report : Report) : Bool :=
  !report.edits.isEmpty

/-- File, line and column of the offending name. -/
def location (report : Report) : String :=
  report.path ++ ":" ++ toString report.loc.startLine ++ ":" ++ toString report.loc.startCol

/-- The report as one line of text. -/
def line (report : Report) : String :=
  report.location ++ ": " ++ report.message ++ " [" ++ report.ruleId ++ "]\n"

end Report

end LoggerLint
