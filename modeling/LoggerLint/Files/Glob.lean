import LoggerLint.Files.Wildcard

/-!
# Patterns for whole paths

A glob is matched with a path as one text: its stars do not stop at slashes. `*` stands for any text, `?` for
any character, and brackets for one character out of a set, which a leading `!` turns around. A bracket that
is never closed stands for itself.
-/

namespace LoggerLint.Glob

/-- A text between brackets without the ranges at its start that hold no character. -/
def dropEmptyRanges : List Char → List Char
  | low :: '-' :: high :: rest =>
    if high < low then dropEmptyRanges rest else low :: '-' :: high :: rest
  | cs => cs

/-- The set that a text between brackets names. -/
def setOf (text : List Char) : CharSet :=
  match text with
  | '!' :: rest => .outside (CharSet.ranges rest)
  | text =>
    match dropEmptyRanges text with
    | '!' :: rest => .outside (CharSet.ranges rest)
    | text => .among (CharSet.ranges text)

/-- The pieces of a glob. -/
def pieces (cs : List Char) : List Piece :=
  match cs with
  | [] => []
  | '*' :: rest => .many .all :: pieces rest
  | '?' :: rest => .one .all :: pieces rest
  | '[' :: rest =>
    match h : bracket? rest with
    | some (text, after) =>
      have := length_lt_of_bracket? h
      .one (setOf text) :: pieces after
    | none => .char '[' :: pieces rest
  | c :: rest => .char c :: pieces rest
termination_by cs.length

/-- Does a glob match a whole path? -/
def accepts (glob path : String) : Bool :=
  Piece.matchHead List.isEmpty (pieces glob.toList) path.toList

end LoggerLint.Glob
