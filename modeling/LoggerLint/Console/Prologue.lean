import LoggerLint.Text.CodePoint

/-!
# The logger prologue

A file that is moved to the module logger starts with two lines: the import of the shared logger, and
the declaration of the file's own logger, whose namespace is the file's name. `fileNamespace` finds
that name, and `prologue` writes the lines.
-/

namespace LoggerLint.Prologue

/-- Both kinds of slash separate the parts of a path. -/
def isSeparator (c : Char) : Bool :=
  c = '/' || c = '\\'

/-- The last part of a path, whatever separators stand behind it. -/
def lastPart (path : List Char) : List Char :=
  ((path.reverse.dropWhile isSeparator).takeWhile (fun c => !isSeparator c)).reverse

/-- A file name without its last extension; a name that only starts with a dot keeps it. -/
def stem (name : List Char) : List Char :=
  match name.reverse.dropWhile (· ≠ '.') with
  | _ :: c :: rest => (c :: rest).reverse
  | _ => name

/-- The logger namespace of a file: its name without directory and last extension. -/
def fileNamespace (path : List Char) : List Char :=
  stem (lastPart path)

/-- The body of a single-quoted literal: backslashes and single quotes get a backslash. -/
def quoteBody (text : List Char) : List Char :=
  text.flatMap fun c => if c = '\\' || c = '\'' then ['\\', c] else [c]

/-- Where the shared logger is imported from. -/
def importPath : String := "lib/logger"

/-- The name of the shared logger. -/
def loggerName : String := "logger"

/-- The name of a file's own logger. -/
def moduleLoggerName : String := "moduleLogger"

/-- The two lines that give a file its logger. -/
def render (path : String) : String :=
  "import \x7b " ++ loggerName ++ " \x7d from '" ++ importPath ++ "';\nconst " ++ moduleLoggerName ++
    " = " ++ loggerName ++ ".child(\x7b namespace: ['" ++
    String.ofList (quoteBody (fileNamespace path.toList)) ++ "'] \x7d);\n"

end LoggerLint.Prologue
