import LoggerLint.Command.Arguments
import LoggerLint.Project
import LoggerLint.Report.Json

/-!
# Running a task

A run goes through the source files of a project one after another. What it writes is what it writes about
each file, in their order, and its exit code is the greatest of theirs: 0 for a file without problems, 1 for
one with problems, 2 for one that cannot be read.

Some faults end a run at once, with no exit code; what was written and changed before them stays.
-/

namespace LoggerLint.Command

/-- What ends a run at once. -/
inductive Crash where
  /-- the configuration file cannot be read at all -/
  | config (failure : ConfigFailure)
  /-- an ignore file cannot be read -/
  | ignoreFile (fault : IgnoreFault)
  /-- links lead in a circle -/
  | circularLinks
  /-- a source file is gone -/
  | unreadable (fault : FileTree.ReadFault)
  /-- a fix cannot be applied -/
  | edit (failure : EditFailure)
  /-- a report has no JSON form -/
  | unwritableReport
  deriving Repr, Inhabited

/-- What a run did. -/
structure Run where
  /-- what it wrote -/
  out : String
  /-- what it wrote about its work and about files it could not read -/
  err : String
  /-- the files after it -/
  tree : FileTree
  /-- its exit code -/
  result : Except Crash Nat

/-! ## What is written -/

/-- The lines of the log that are shown: warnings, or all of them. -/
def shownLog (verbose : Bool) (log : List LogLine) : String :=
  String.join ((log.filter fun line => verbose || line.level = .warning).map LogLine.render)

/-- One report as a line of output. -/
def reportLine? (report : Report) : Format → Option String
  | .text => some report.line
  | .json => report.json?.map (· ++ "\n")

/-- The lines of reports up to the first that cannot be written, and whether there is none. -/
def reportLines (format : Format) : List Report → String × Bool
  | [] => ("", true)
  | report :: rest =>
    match reportLine? report format with
    | some line =>
      let (lines, complete) := reportLines format rest
      (line ++ lines, complete)
    | none => ("", false)

/-! ## Single files -/

/-- What every run over a file needs. -/
structure Setting where
  /-- the reader of sources -/
  parse : Parser
  /-- the configuration -/
  config : Config
  /-- is the whole log shown -/
  verbose : Bool
  /-- the root of the project -/
  root : Path

/-- Report the problems of one file. -/
def checkFile (setting : Setting) (format : Format) (tree : FileTree) (path : List String) : Run :=
  match lintFile setting.parse setting.config.globals tree (setting.root.join ⟨0, path⟩)
      setting.root with
  | .error (.refused error) => ⟨"", error.message ++ "\n", tree, .ok 2⟩
  | .error (.unreadable fault) => ⟨"", "", tree, .error (.unreadable fault)⟩
  | .error (.edit failure) => ⟨"", "", tree, .error (.edit failure)⟩
  | .ok linted =>
    let (lines, complete) := reportLines format linted.reports
    ⟨lines, shownLog setting.verbose linted.log, tree,
      if complete then .ok (if linted.reports.isEmpty then 0 else 1) else .error .unwritableReport⟩

/-- Mend the problems of one file. -/
def mendFile (setting : Setting) (tree : FileTree) (path : List String) : Run :=
  let file := setting.root.join ⟨0, path⟩
  let done := fixFile setting.parse setting.config.globals tree file setting.root
  let log := shownLog setting.verbose done.log
  match done.outcome with
  | .error (.refused error) => ⟨"", log ++ error.message ++ "\n", done.tree, .ok 2⟩
  | .error (.unreadable fault) => ⟨"", log, done.tree, .error (.unreadable fault)⟩
  | .error (.edit failure) => ⟨"", log, done.tree, .error (.edit failure)⟩
  | .ok result =>
    let summary := file.display setting.root ++ ": fixed " ++ toString result.fixed ++ " problem(s)\n"
    ⟨if result.changed then summary else "",
      log ++ String.join (result.remaining.map Report.line), done.tree,
      .ok (if result.remaining.isEmpty then 0 else 1)⟩

/-! ## Whole projects -/

/-- Go through files one after another. -/
def eachFile (step : FileTree → List String → Run) : List (List String) → FileTree → Run
  | [], tree => ⟨"", "", tree, .ok 0⟩
  | path :: rest, tree =>
    let first := step tree path
    match first.result with
    | .error crash => { first with result := .error crash }
    | .ok code =>
      let others := eachFile step rest first.tree
      ⟨first.out ++ others.out, first.err ++ others.err, others.tree, others.result.map (max code)⟩

/-- What is done with each file. -/
def Task.step (setting : Setting) : Task → FileTree → List String → Run
  | .check format => checkFile setting format
  | .fix => mendFile setting

/-- What is said about a configuration that is refused; some are not even worth that. -/
def configComplaint? (root : Path) : ConfigFailure → Option String
  | .notToml => some ("error: Invalid TOML in " ++ (root.join ⟨0, [Config.fileName]⟩).toString ++ "\n")
  | .invalid _ =>
    some ("error: Invalid config in " ++ (root.join ⟨0, [Config.fileName]⟩).toString ++ "\n")
  | .notText => none
  | .tooManyDigits => none

/-- Run a task at a root that leads through no links. -/
def runAt (parse : Parser) (tree : FileTree) (root : Path) (arguments : Arguments) : Run :=
  match Config.load tree root with
  | .error failure =>
    match configComplaint? root failure with
    | some complaint => ⟨"", complaint, tree, .ok 2⟩
    | none => ⟨"", "", tree, .error (.config failure)⟩
  | .ok config =>
    match tree.findSources root config with
    | .error fault => ⟨"", "", tree, .error (.ignoreFile fault)⟩
    | .ok files =>
      eachFile (arguments.task.step ⟨parse, config, arguments.verbose, root⟩) files tree

/-- Run a task, with its root seen from a working directory. -/
def run (parse : Parser) (tree : FileTree) (working : Path) (arguments : Arguments) : Run :=
  match tree.resolve? (working.join (Path.ofString arguments.root)) with
  | some place => runAt parse tree ⟨1, place.names⟩ arguments
  | none => ⟨"", "", tree, .error .circularLinks⟩

end LoggerLint.Command
