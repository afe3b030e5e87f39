import LoggerLint.Config.File
import LoggerLint.Files.Scan
import LoggerLint.Fix.Run

/-!
# Projects

A project is a directory in a file tree. Its configuration is a file at its root, and its source files are
linted and fixed where they stand.
-/

namespace LoggerLint

/-- The configuration of a project; without a configuration file it is the usual one. -/
def Config.load (tree : FileTree) (root : Path) : Except ConfigFailure Config :=
  match tree.read (root.join ⟨0, [fileName]⟩) with
  | .ok content => ofBytes content
  | .error _ => .ok {}

/-- Why a file could not be linted or fixed. -/
inductive FileFailure where
  /-- it cannot be read -/
  | unreadable (fault : FileTree.ReadFault)
  /-- its content is refused -/
  | refused (error : SourceError)
  /-- its fixes cannot be applied -/
  | edit (failure : EditFailure)
  deriving Repr, Inhabited

namespace FileFailure

/-- A failed fix, as a failure with a file. -/
def ofFix : FixFailure → FileFailure
  | .refused error => .refused error
  | .edit failure => .edit failure

end FileFailure

/-- Lint a file of a project. -/
def lintFile (parse : Parser) (globals : List String) (tree : FileTree) (path root : Path) :
    Except FileFailure Linted :=
  match tree.read path with
  | .error fault => .error (.unreadable fault)
  | .ok content => (lint parse globals Rule.all content (path.display root)).mapError .refused

/-- What fixing a file gave: how it ended, the tree after it, and what was logged. -/
structure FileFix where
  /-- how it ended -/
  outcome : Except FileFailure FixResult
  /-- the tree after it -/
  tree : FileTree
  /-- what was logged -/
  log : List LogLine

/-- The log line about a file that was changed. -/
def appliedLine (path : String) (fixed : Nat) : LogLine :=
  ⟨.info, "lint.runner", path ++ ": applied " ++ toString fixed ++ " fix(es)"⟩

/-- Fix a file of a project where it stands; it is written only if it changes. -/
def fixFile (parse : Parser) (globals : List String) (tree : FileTree) (path root : Path) :
    FileFix :=
  match tree.read path with
  | .error fault => ⟨.error (.unreadable fault), tree, []⟩
  | .ok content =>
    let display := path.display root
    let run := fix parse globals Fix.defaultPasses content display
    match run.outcome with
    | .error failure => ⟨.error (.ofFix failure), tree, run.log⟩
    | .ok result =>
      if result.changed then
        ⟨.ok result, tree.write path (.file result.output),
          run.log ++ [appliedLine display result.fixed]⟩
      else
        ⟨.ok result, tree, run.log⟩

end LoggerLint
