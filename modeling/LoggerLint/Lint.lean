import LoggerLint.Console.Rule

/-!
# Linting a source

`lint` reads a source, analyses its scopes and runs rules over it. A source that is no text, or that the
parser cannot read, has no reports: it is refused with the place of the first fault.

The parser is a parameter: any function from sources to syntax trees will do.
-/

namespace LoggerLint

/-- A reader of sources: it always gives a tree, and marks in it what it could not read. -/
abbrev Parser := Bytes → Node

/-! ## Sources that are refused -/

/-- What is wrong with a source. -/
inductive SourceFault where
  /-- the bytes are no text -/
  | invalidUtf8
  /-- the parser could not read the text -/
  | badSyntax
  deriving DecidableEq, Repr, Inhabited

namespace SourceFault

/-- The words for a fault. -/
def reason : SourceFault → String
  | .invalidUtf8 => "invalid UTF-8"
  | .badSyntax => "syntax error"

end SourceFault

/-- Why a source is refused. -/
structure SourceError where
  /-- the file, as shown -/
  path : String
  /-- where the first fault is -/
  position : Position
  /-- what is wrong there -/
  fault : SourceFault
  deriving DecidableEq, Repr, Inhabited

namespace SourceError

/-- What is said about a refused source. -/
def message (error : SourceError) : String :=
  error.path ++ ":" ++ toString error.position.line ++ ":" ++ toString error.position.col ++ ": " ++
    error.fault.reason

end SourceError

/-- Read a source and analyse its scopes. -/
def readScopes (parse : Parser) (globals : List String) (source : Bytes) (path : String) :
    Except SourceError ScopeTree :=
  match Utf8.decode source with
  | .error offset => .error ⟨path, .ofOffset source offset, .invalidUtf8⟩
  | .ok _ =>
    let root := parse source
    match root.errors with
    | fault :: _ => .error ⟨path, .ofOffset source fault.start, .badSyntax⟩
    | [] => .ok (.analyze source root globals)

/-! ## Rules -/

/-- What kind of change the fixes of a rule make. -/
inductive FixKind where
  | code | whitespace
  deriving DecidableEq, Repr, Inhabited

namespace FixKind

/-- The word for a kind of change. -/
def word : FixKind → String
  | .code => "code"
  | .whitespace => "whitespace"

end FixKind

/-- A rule. -/
structure Rule where
  /-- its name -/
  id : String
  /-- the kind of complaint it makes -/
  type : RuleType
  /-- the kind of change its fixes make, if it has fixes -/
  fixable : Option FixKind
  /-- what it is for -/
  description : String
  /-- the problems it finds in a file -/
  reports : ScopeTree → String → List Report
  /-- what it says about its run -/
  log : ScopeTree → String → List LogLine

namespace Rule

/-- The rule against the native console. -/
def noNativeConsole : Rule where
  id := Console.ruleId
  type := .problem
  fixable := some .code
  description := "Disallow console.error/warn/info in favor of moduleLogger"
  reports := Console.reports
  log := Console.log

/-- All rules. -/
def all : List Rule := [noNativeConsole]

/-- The rule of a name. -/
def ofId? (id : String) : Option Rule :=
  all.find? (·.id == id)

end Rule

/-! ## Linting -/

namespace Report

/-- The order of reports: by line, column and rule. -/
def before (a b : Report) : Bool :=
  if a.loc.startLine ≠ b.loc.startLine then a.loc.startLine < b.loc.startLine
  else if a.loc.startCol ≠ b.loc.startCol then a.loc.startCol < b.loc.startCol
  else a.ruleId ≤ b.ruleId

end Report

/-- The reports of a source, and the log of the run. -/
structure Linted where
  /-- the reports, in order -/
  reports : List Report
  /-- what was logged on the way -/
  log : List LogLine
  deriving Repr, Inhabited

/-- Run rules over a source. -/
def lint (parse : Parser) (globals : List String) (rules : List Rule) (source : Bytes)
    (path : String) : Except SourceError Linted :=
  (readScopes parse globals source path).map fun tree =>
    { reports := (rules.flatMap (·.reports tree path)).mergeSort Report.before
      log := ScopeTree.log tree.source tree.root globals ++ rules.flatMap (·.log tree path) }

end LoggerLint
