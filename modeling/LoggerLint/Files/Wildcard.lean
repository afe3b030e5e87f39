/-!
# Wildcards

Patterns for file names are lists of pieces. A piece stands for one character out of a set, for any number
of such characters, or for any number of directories. Matching goes through the pieces and keeps all that
can be left of the text (`Piece.rests`); what has to hold at the end is up to the kind of pattern.

Patterns also share the way in which sets are written between brackets (`bracket?`, `CharSet.ranges`).
-/

namespace LoggerLint

/-! ## Sets of characters -/

/-- A set of characters. -/
inductive CharSet where
  /-- every character -/
  | all
  /-- every character but the end of a line -/
  | inLine
  /-- every character but the slash -/
  | inName
  /-- the characters that lie in one of the ranges -/
  | among (ranges : List (Char × Char))
  /-- the characters that lie in none of the ranges -/
  | outside (ranges : List (Char × Char))
  deriving DecidableEq, Repr, Inhabited

namespace CharSet

/-- The set of a single character. -/
def only (c : Char) : CharSet :=
  .among [(c, c)]

/-- Does a character lie in one of the ranges? -/
def inRanges (ranges : List (Char × Char)) (c : Char) : Bool :=
  ranges.any fun (low, high) => low ≤ c && c ≤ high

/-- Is a character in the set? -/
def contains : CharSet → Char → Bool
  | .all, _ => true
  | .inLine, c => c ≠ '\n'
  | .inName, c => c ≠ '/'
  | .among ranges, c => inRanges ranges c
  | .outside ranges, c => !inRanges ranges c

/-- The ranges that a text between brackets names, from left to right. A hyphen between two characters
makes a range of them; any other character is a range of its own. -/
def ranges : List Char → List (Char × Char)
  | low :: '-' :: high :: rest => (low, high) :: ranges rest
  | c :: rest => (c, c) :: ranges rest
  | [] => []

end CharSet

/-! ## Brackets -/

/-- What cannot close a bracket: an exclamation mark at the start, and a bracket right after it. -/
def bracketHead : List Char → List Char × List Char
  | '!' :: ']' :: rest => (['!', ']'], rest)
  | '!' :: rest => (['!'], rest)
  | ']' :: rest => ([']'], rest)
  | cs => ([], cs)

/-- The text up to the closing bracket, and what follows it. -/
def bracket? (cs : List Char) : Option (List Char × List Char) :=
  match (bracketHead cs).2.dropWhile (· ≠ ']') with
  | _ :: after => some ((bracketHead cs).1 ++ (bracketHead cs).2.takeWhile (· ≠ ']'), after)
  | [] => none

theorem length_bracketHead (cs : List Char) : (bracketHead cs).2.length ≤ cs.length := by
  unfold bracketHead
  split <;> simp only [List.length_cons] <;> omega

theorem length_lt_of_bracket? {cs text after : List Char} (h : bracket? cs = some (text, after)) :
    after.length < cs.length := by
  unfold bracket? at h
  have head := length_bracketHead cs
  have tail := (List.dropWhile_suffix (l := (bracketHead cs).2) (· ≠ ']')).length_le
  split at h
  · next c rest eq =>
    rw [eq] at tail
    simp only [List.length_cons] at tail
    simp only [Option.some.injEq, Prod.mk.injEq] at h
    rw [← h.2]
    omega
  · simp at h

/-! ## Pieces -/

/-- One piece of a pattern. -/
inductive Piece where
  /-- one character of a set -/
  | one (set : CharSet)
  /-- any number of characters of a set -/
  | many (set : CharSet)
  /-- nothing, or anything within a line that ends in a slash -/
  | directories
  deriving DecidableEq, Repr, Inhabited

namespace Piece

/-- The piece for a given character. -/
def char (c : Char) : Piece :=
  .one (.only c)

/-- All that can be left of a text after some characters of a set. -/
def restsOfMany (set : CharSet) : List Char → List (List Char)
  | [] => [[]]
  | c :: rest => (c :: rest) :: if set.contains c then restsOfMany set rest else []

/-- All that can be left of a text after a slash that follows some characters of one line. -/
def restsOfDirectories : List Char → List (List Char)
  | [] => []
  | c :: rest =>
    (if c = '/' then [rest] else []) ++ if c = '\n' then [] else restsOfDirectories rest

/-- All that can be left of a text after a piece. -/
def rests : Piece → List Char → List (List Char)
  | .one _, [] => []
  | .one set, c :: rest => if set.contains c then [rest] else []
  | .many set, text => restsOfMany set text
  | .directories, text => text :: restsOfDirectories text

/-- Can the pieces stand at the head of a text, so that the rest of it is `accepted`? -/
def matchHead (accepted : List Char → Bool) : List Piece → List Char → Bool
  | [], text => accepted text
  | piece :: pieces, text => (piece.rests text).any (matchHead accepted pieces)

end Piece

end LoggerLint
