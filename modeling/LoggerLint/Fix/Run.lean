import LoggerLint.Fix.Batch
import LoggerLint.Lint

/-!
# Fixing a source

`fix` lints a source, applies the fixes it finds, and starts again on the result, until nothing is left
to fix, no fix can be applied, or enough passes were made. A pass whose result cannot be read any more
is thrown away and ends the run, so the output is always a source that lints.
-/

namespace LoggerLint

/-- What fixing a source gave. -/
structure FixResult where
  /-- the fixed source -/
  output : Bytes
  /-- does it differ from the source -/
  changed : Bool
  /-- how many fixes were applied -/
  fixed : Nat
  /-- how many passes were made, one that was thrown away included -/
  passes : Nat
  /-- the reports of the fixed source -/
  remaining : List Report
  deriving Repr, Inhabited

/-- Why fixing a source gave nothing. -/
inductive FixFailure where
  /-- the source is refused -/
  | refused (error : SourceError)
  /-- a fix cannot be applied -/
  | edit (failure : EditFailure)
  deriving Repr, Inhabited

/-- The run of a fix: how it ended, and what was logged. -/
structure FixRun where
  /-- how it ended -/
  outcome : Except FixFailure FixResult
  /-- what was logged -/
  log : List LogLine
  deriving Inhabited

namespace Fix

/-- How many passes are made at most, unless asked otherwise. -/
def defaultPasses : Nat := 10

/-- What a run holds between two passes. -/
structure State where
  /-- the source as it is now -/
  current : Bytes
  /-- its reports -/
  reports : List Report
  /-- how many fixes were applied -/
  fixed : Nat
  /-- how many passes were made -/
  passes : Nat
  deriving Repr, Inhabited

/-- The result of a run that stops here. -/
def State.result (source : Bytes) (state : State) : FixResult where
  output := state.current
  changed := state.current != source
  fixed := state.fixed
  passes := state.passes
  remaining := state.reports

/-- The warning about a pass that is thrown away. -/
def discardWarning (path : String) (passes : Nat) (error : SourceError) : LogLine :=
  ⟨.warning, "lint.runner",
    path ++ ": discarding fix pass " ++ toString passes ++ ": " ++ error.message⟩

/-- Make passes, at most `left` more of them. The parser of a pass may depend on how many were made
before it. -/
def loop (parse : Nat → Parser) (globals : List String) (path : String) :
    (left : Nat) → State → Except EditFailure State × List LogLine
  | 0, state => (.ok state, [])
  | left + 1, state =>
    if state.reports.any (·.fixable) then
      let warnings := Batch.warnings state.current state.reports
      match Batch.apply state.current state.reports with
      | .error failure => (.error failure, warnings)
      | .ok batch =>
        if batch.applied = 0 then
          (.ok state, warnings)
        else
          let passes := state.passes + 1
          match lint (parse passes) globals Rule.all batch.output path with
          | .error error =>
            (.ok { state with passes }, warnings ++ [discardWarning path passes error])
          | .ok next =>
            let (outcome, log) := loop parse globals path left
              ⟨batch.output, next.reports, state.fixed + batch.applied, passes⟩
            (outcome, warnings ++ next.log ++ log)
    else
      (.ok state, [])

/-- Fix a source with a parser that may change from pass to pass. -/
def runWith (parse : Nat → Parser) (globals : List String) (maxPasses : Nat) (source : Bytes)
    (path : String) : FixRun :=
  match lint (parse 0) globals Rule.all source path with
  | .error error => ⟨.error (.refused error), []⟩
  | .ok first =>
    match loop parse globals path maxPasses ⟨source, first.reports, 0, 0⟩ with
    | (.error failure, log) => ⟨.error (.edit failure), first.log ++ log⟩
    | (.ok state, log) => ⟨.ok (state.result source), first.log ++ log⟩

end Fix

/-- Fix a source. -/
def fix (parse : Parser) (globals : List String) (maxPasses : Nat) (source : Bytes)
    (path : String) : FixRun :=
  Fix.runWith (fun _ => parse) globals maxPasses source path

end LoggerLint
