import LoggerLint.Report

/-!
# Applying edits

Edits are applied in the order of their starts and ends, whatever order they are given in; one that
starts before its predecessor ends is a conflict. `merge` folds the edits of one fix into a single edit
with the same effect, so that a fix is applied as a whole or not at all.
-/

namespace LoggerLint

/-- Why the edits of a fix do not fit together. -/
inductive Conflict where
  /-- there are no edits -/
  | empty
  /-- an edit is reversed, or ends past the source -/
  | outside (start stop : Nat)
  /-- an edit starts before its predecessor ends -/
  | overlap (start stop : Nat)
  deriving DecidableEq, Repr, Inhabited

namespace Conflict

/-- What is said about a conflict. -/
def message : Conflict → String
  | .empty => "cannot merge an empty edit list"
  | .outside start stop =>
    "edit [" ++ toString start ++ ", " ++ toString stop ++ ") is outside the source"
  | .overlap start stop =>
    "edit [" ++ toString start ++ ", " ++ toString stop ++ ") overlaps a previous edit"

end Conflict

/-- Why edits cannot be applied. -/
inductive EditFailure where
  /-- the edits do not fit together -/
  | conflict (cause : Conflict)
  /-- a text holds a surrogate, so it has no bytes -/
  | unencodable
  /-- the bytes between two edits are no text -/
  | undecodable
  deriving DecidableEq, Repr, Inhabited

namespace Edit

/-- The order in which edits are applied: by start, then by end. -/
def before (a b : Edit) : Bool :=
  a.start < b.start || (a.start == b.start && a.stop ≤ b.stop)

/-- Edits in the order in which they are applied; equal spans keep their order. -/
def inOrder (edits : List Edit) : List Edit :=
  edits.mergeSort before

/-- The bytes from `start` up to `stop`, as far as they are there. -/
def slice (source : Bytes) (start stop : Nat) : Bytes :=
  (source.take stop).drop start

/-- Does the edit lie in a source of this length? -/
def inRange (length : Nat) (edit : Edit) : Bool :=
  edit.start ≤ edit.stop && edit.stop ≤ length

/-- Copy the source from `position` through a list of ordered edits: the bytes written, and the
position after the last edit. -/
def splice (source : Bytes) : (position : Nat) → List Edit → Except EditFailure (Bytes × Nat)
  | position, [] => .ok ([], position)
  | position, edit :: rest =>
    if edit.start < position then
      .error (.conflict (.overlap edit.start edit.stop))
    else
      match edit.text.encode? with
      | none => .error .unencodable
      | some bytes =>
        (splice source edit.stop rest).map fun (written, stop) =>
          (slice source position edit.start ++ bytes ++ written, stop)

/-- Fold the edits of one fix into one edit, which spans from the first start to the last end. -/
def merge (source : Bytes) (edits : List Edit) : Except EditFailure Edit :=
  let ordered := inOrder edits
  match ordered with
  | [] => .error (.conflict .empty)
  | first :: rest =>
    match ordered.find? (!·.inRange source.length) with
    | some edit => .error (.conflict (.outside edit.start edit.stop))
    | none =>
      if rest.isEmpty then
        .ok first
      else
        match splice source first.start ordered with
        | .error failure => .error failure
        | .ok (written, stop) =>
          match Utf8.decode written with
          | .error _ => .error .undecodable
          | .ok text => .ok ⟨first.start, stop, .ofChars text⟩

/-- Apply edits to a source. -/
def apply (source : Bytes) (edits : List Edit) : Except EditFailure Bytes :=
  (splice source 0 (inOrder edits)).map fun (written, stop) => written ++ source.drop stop

end Edit

end LoggerLint
