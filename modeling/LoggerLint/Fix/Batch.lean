import LoggerLint.Fix.Merge
import LoggerLint.Log

/-!
# One pass of fixes

The fixes of many reports are applied at once. Every fix is merged into one edit; a fix whose edits do
not fit together is dropped with a warning. Of fixes that overlap the first one is applied, and the
others wait for a later pass over the changed source.
-/

namespace LoggerLint

/-- What one pass of fixes did. -/
structure BatchOutcome where
  /-- the changed source -/
  output : Bytes
  /-- how many fixes were applied -/
  applied : Nat
  /-- how many fixes overlapped an applied one -/
  skipped : Nat
  deriving DecidableEq, Repr, Inhabited

namespace Batch

/-- The fixes of reports, each merged into one edit, in the order of the reports. A fix in conflict is
left out; any other failure ends the pass. -/
def merged (source : Bytes) : List Report → Except EditFailure (List Edit)
  | [] => .ok []
  | report :: rest =>
    if report.fixable then
      match Edit.merge source report.edits with
      | .ok edit => (merged source rest).map (edit :: ·)
      | .error (.conflict _) => merged source rest
      | .error failure => .error failure
    else
      merged source rest

/-- The warnings about fixes that are left out, up to the failure that ends the pass. -/
def warnings (source : Bytes) : List Report → List LogLine
  | [] => []
  | report :: rest =>
    if report.fixable then
      match Edit.merge source report.edits with
      | .ok _ => warnings source rest
      | .error (.conflict cause) =>
        ⟨.warning, "fixes.apply", report.location ++ ": dropping fix: " ++ cause.message⟩ ::
          warnings source rest
      | .error _ => []
    else
      warnings source rest

/-- Of ordered edits, those that start no earlier than the last accepted one ends. -/
def accept : (lastStop : Nat) → List Edit → List Edit
  | _, [] => []
  | lastStop, edit :: rest =>
    if edit.start < lastStop then accept lastStop rest else edit :: accept edit.stop rest

/-- Apply the fixes of reports. -/
def apply (source : Bytes) (reports : List Report) : Except EditFailure BatchOutcome :=
  match merged source reports with
  | .error failure => .error failure
  | .ok fixes =>
    let accepted := accept 0 (Edit.inOrder fixes)
    (Edit.apply source accepted).map fun output =>
      ⟨output, accepted.length, fixes.length - accepted.length⟩

end Batch

end LoggerLint
