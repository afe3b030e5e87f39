/-!
# Paths

A path is an optional root and a list of parts. Written paths may repeat slashes, end in one and hold
`.` parts; none of that survives reading, so equal paths are equal values. A `..` part is kept: what
it leads to depends on the file system.
-/

namespace LoggerLint

/-- A path with forward slashes. -/
structure Path where
  /-- how many slashes the path starts from: none, one, or exactly two -/
  slashes : Nat
  /-- the parts, none of them empty, `.` or holding a slash -/
  parts : List String
  deriving DecidableEq, Repr, Inhabited

namespace Path

/-- The text between the slashes of a written path. -/
def splitChars : List Char → List (List Char)
  | [] => [[]]
  | c :: cs =>
    if c = '/' then
      [] :: splitChars cs
    else
      match splitChars cs with
      | [] => [[c]]
      | first :: rest => (c :: first) :: rest

/-- A root of exactly two slashes is kept apart; more than two are one. -/
def rootSlashes (cs : List Char) : Nat :=
  let run := (cs.takeWhile (· = '/')).length
  if run = 0 then 0 else if run = 2 then 2 else 1

/-- Read a written path. -/
def ofString (s : String) : Path :=
  let cs := s.toList
  ⟨rootSlashes cs, ((splitChars cs).map String.ofList).filter fun part => part ≠ "" && part ≠ "."⟩

/-- Write a path; the path without root and parts is `.`. -/
def toString (p : Path) : String :=
  if p.slashes = 0 && p.parts.isEmpty then "."
  else String.ofList (List.replicate p.slashes '/') ++ String.intercalate "/" p.parts

/-- A path below another; an absolute one takes its place. -/
def join (p q : Path) : Path :=
  if q.slashes = 0 then ⟨p.slashes, p.parts ++ q.parts⟩ else q

/-- The rest of a list after a given beginning. -/
def dropBeginning? {α : Type} [DecidableEq α] : (beginning list : List α) → Option (List α)
  | [], list => some list
  | _ :: _, [] => none
  | x :: xs, y :: ys => if x = y then dropBeginning? xs ys else none

/-- The path as seen from `base`, when it lies at or below it. -/
def relativeTo? (p base : Path) : Option Path :=
  if p.slashes = base.slashes then (dropBeginning? base.parts p.parts).map (⟨0, ·⟩) else none

/-- The last part. -/
def name (p : Path) : String :=
  p.parts.getLast?.getD ""

/-- The end of a file name from its last dot on; a dot at either end of the name makes none. -/
def suffixChars (name : List Char) : List Char :=
  let tail := (name.reverse.takeWhile (· ≠ '.')).reverse
  if tail.length + 1 < name.length && tail ≠ [] then '.' :: tail else []

/-- The extension of a path's last part, with its dot. -/
def extension (p : Path) : String :=
  String.ofList (suffixChars p.name.toList)

/-- How a path is shown in messages: seen from the project's root where that is possible. -/
def display (p root : Path) : String :=
  ((p.relativeTo? root).getD p).toString

end Path

end LoggerLint
