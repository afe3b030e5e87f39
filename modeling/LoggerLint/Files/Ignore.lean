import LoggerLint.Files.Wildcard
import LoggerLint.Text.Blank
import LoggerLint.Text.Utf8

/-!
# Ignore files

An ignore file holds one rule a line, which is matched with the paths below the file's directory.

* `*` and `?` stand for characters of one name, `**` for any text, `**/` for any directories or none.
* A rule with a slash before its end is anchored: it starts at the file's directory. Any other rule may start
  at every name of a path.
* A rule with a slash at its end also matches what is below a path it matches.
* A rule that starts with `!` takes back what earlier rules ignore: of all rules that match a path the last
  one decides.

Whether a path is a directory is not looked at.
-/

namespace LoggerLint

/-- Why an ignore file cannot be read. -/
inductive IgnoreFault where
  /-- it is no text -/
  | notText
  /-- nothing is left of a rule -/
  | hollowRule
  /-- a range between brackets runs backwards, or nothing is left between them -/
  | badRange
  deriving DecidableEq, Repr, Inhabited

/-- One rule of an ignore file. -/
structure IgnoreRule where
  /-- does it take back what earlier rules ignore -/
  negated : Bool
  /-- did it end in a slash -/
  slashed : Bool
  /-- does it start at the file's directory -/
  anchored : Bool
  /-- what it matches -/
  pieces : List Piece
  deriving DecidableEq, Repr, Inhabited

namespace IgnoreRule

/-! ## Reading a rule -/

/-- Two or more stars after something that is no slash are one. -/
def joinStarsAfter (cs : List Char) : List Char :=
  match cs with
  | [] => []
  | c :: '*' :: '*' :: rest =>
    if c = '/' then
      c :: joinStarsAfter ('*' :: '*' :: rest)
    else
      have := (List.dropWhile_suffix (l := rest) (· = '*')).length_le
      c :: '*' :: joinStarsAfter (rest.dropWhile (· = '*'))
  | c :: rest => c :: joinStarsAfter rest
termination_by cs.length

/-- Two or more stars before something that is no slash are one, and otherwise two. -/
def joinStarsBefore (cs : List Char) : List Char :=
  match cs with
  | [] => []
  | '*' :: '*' :: rest =>
    have := (List.dropWhile_suffix (l := rest) (· = '*')).length_le
    match h : rest.dropWhile (· = '*') with
    | [] => ['*', '*']
    | c :: more =>
      have : more.length < rest.length := by
        rw [h, List.length_cons] at this
        exact this
      (if c = '/' then ['*', '*', c] else ['*', c]) ++ joinStarsBefore more
  | c :: rest => c :: joinStarsBefore rest
termination_by cs.length

/-- A text without one slash at its start. -/
def dropSlash : List Char → List Char
  | '/' :: rest => rest
  | cs => cs

/-- A text without one slash at its end. -/
def dropLastSlash (cs : List Char) : List Char :=
  if cs.getLast? = some '/' then cs.dropLast else cs

/-- A backslash lets a rule start with a hash or an exclamation mark. -/
def unescapeStart : List Char → Except IgnoreFault (List Char)
  | '\\' :: '#' :: rest => .ok ('#' :: rest)
  | '\\' :: '!' :: rest => .ok ('!' :: rest)
  | ['\\'] => .error .hollowRule
  | cs => .ok cs

/-- Remove the spaces up to index `i` from there backwards; those after a backslash lose it and stay, as do
all before them. The first two characters are left alone. -/
def trimSpaces (strip : Bool) : (i : Nat) → List Char → List Char
  | i + 2, cs =>
    if cs[i + 2]? = some ' ' then
      if cs[i + 1]? = some '\\' then trimSpaces false i (cs.eraseIdx (i + 1))
      else trimSpaces strip (i + 1) (if strip then cs.take (i + 2) else cs)
    else
      cs
  | _, cs => cs

/-- The set that a text between brackets names. Slashes in it do not count. -/
def setOf (text : List Char) : Except IgnoreFault CharSet :=
  let checked (set : List (Char × Char) → CharSet) (text : List Char) : Except IgnoreFault CharSet :=
    let ranges := CharSet.ranges text
    if ranges.isEmpty || ranges.any fun (low, high) => high < low then .error .badRange
    else .ok (set ranges)
  match text.filter (· ≠ '/') with
  | [] => .error .hollowRule
  | '!' :: rest => checked .outside rest
  | text => checked .among text

/-- The pieces of a rule. -/
def piecesOf (cs : List Char) : Except IgnoreFault (List Piece) :=
  match cs with
  | [] => .ok []
  | '*' :: '*' :: '/' :: rest => do return .directories :: (← piecesOf rest)
  | '*' :: '*' :: rest => do return .many .inLine :: (← piecesOf rest)
  | '*' :: rest => do return .many .inName :: (← piecesOf rest)
  | '?' :: rest => do return .one .inName :: (← piecesOf rest)
  | '[' :: rest =>
    match h : bracket? rest with
    | some (text, after) =>
      have := length_lt_of_bracket? h
      do return .one (← setOf text) :: (← piecesOf after)
    | none => do return .char '[' :: (← piecesOf rest)
  | c :: rest => do return .char c :: (← piecesOf rest)
termination_by cs.length

/-- Read what a rule matches, after its exclamation mark; a lone slash is no rule. -/
def ofPattern (negated : Bool) (cs : List Char) : Except IgnoreFault (Option IgnoreRule) :=
  let cs := joinStarsBefore (joinStarsAfter cs)
  if Blank.trimEnd cs = ['/'] then
    .ok none
  else
    let slashed := cs.getLast? = some '/'
    let anchored := cs.dropLast.contains '/'
    let (inner, anchored) :=
      match dropSlash cs with
      | '*' :: '*' :: rest => (rest, false)
      | rest => (rest, anchored)
    match dropLastSlash (dropSlash inner) with
    | [] => .error .hollowRule
    | text => do
      let text ← unescapeStart text
      let pieces ← piecesOf (trimSpaces true (text.length - 1) text)
      return some ⟨negated, slashed, anchored, pieces⟩

/-- Read one line; a blank one and a comment hold no rule. -/
def ofLine (line : List Char) : Except IgnoreFault (Option IgnoreRule) :=
  if line.all Blank.isBlank then
    .ok none
  else
    match line with
    | '#' :: _ => .ok none
    | '!' :: rest => ofPattern true rest
    | line => ofPattern false line

/-! ## Matching -/

/-- What is left of a text after each of its slashes. -/
def afterSlashes : List Char → List (List Char)
  | [] => []
  | c :: rest => (if c = '/' then [rest] else []) ++ afterSlashes rest

/-- Nothing is left, or the end of a line only. -/
def isEnd (rest : List Char) : Bool :=
  rest.isEmpty || rest = ['\n']

/-- May this be left of a path after a rule? -/
def endsWell (rule : IgnoreRule) (rest : List Char) : Bool :=
  if !rule.slashed then
    isEnd rest
  else
    match rest with
    | '/' :: more => !rule.negated || isEnd more
    | rest => !rule.negated && isEnd rest

/-- Does a rule match a path, seen from the file's directory? -/
def accepts (rule : IgnoreRule) (path : List Char) : Bool :=
  (path :: if rule.anchored then [] else afterSlashes path).any
    (Piece.matchHead rule.endsWell rule.pieces)

end IgnoreRule

/-! ## Whole files -/

/-- An ignore file: the directory it stands in, and its rules. -/
structure IgnoreFile where
  /-- the parts of the directory's path -/
  base : List String
  /-- the rules, in the order of the file -/
  rules : List IgnoreRule
  deriving DecidableEq, Repr, Inhabited

namespace IgnoreFile

/-- The lines of a text; a carriage return ends a line too, alone or before a line feed. -/
def lines : List Char → List (List Char)
  | [] => [[]]
  | '\r' :: '\n' :: rest => [] :: lines rest
  | c :: rest =>
    if c = '\n' || c = '\r' then
      [] :: lines rest
    else
      match lines rest with
      | line :: more => (c :: line) :: more
      | [] => [[c]]

/-- Read an ignore file that stands in a directory. -/
def ofBytes (base : List String) (content : Bytes) : Except IgnoreFault IgnoreFile :=
  match Utf8.decode content with
  | .error _ => .error .notText
  | .ok text => do
    let rules ← (lines text).mapM IgnoreRule.ofLine
    return ⟨base, rules.filterMap id⟩

/-- A path as a rule sees it: the directory itself is `.`, and a slash at the end is kept for negated rules
only. -/
def seenBy (rule : IgnoreRule) (path : List String) (slash : Bool) : List Char :=
  let text := if path.isEmpty then ['.'] else (String.intercalate "/" path).toList
  if rule.negated && slash then (if path.isEmpty then [] else text ++ ['/']) else text

/-- Does a file ignore a path below its directory? The last rule that matches decides. -/
def ignores (file : IgnoreFile) (path : List String) (slash : Bool) : Bool :=
  match file.rules.reverse.find? fun rule => rule.accepts (seenBy rule path slash) with
  | some rule => !rule.negated
  | none => false

/-- Does a file ignore a path, given by its parts from the root? There is no answer for a path that is not
below the file's directory, unless the file has no rules. -/
def ignores? (file : IgnoreFile) (path : List String) (slash : Bool) : Option Bool :=
  if file.rules.isEmpty then
    some false
  else if file.base.isPrefixOf path then
    some (file.ignores (path.drop file.base.length) slash)
  else
    none

end IgnoreFile

end LoggerLint
