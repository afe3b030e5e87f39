import LoggerLint.Script.Lexeme

/-!
# Semicolons that are left out

A statement may end without its semicolon: at the end of the script, before a closing brace, and where
its line ends. In the last case the next line must not continue the statement, which is told from the
characters it starts with.
-/

namespace LoggerLint.Script.Semicolon

/-- The blanks that may stand between a statement and the end of its line. -/
def isLineBlank (c : Char) : Bool :=
  isAsciiBlank c || isLineEnd c ||
    (isSpaceSeparator c && c != '\u00a0' && c != '\u2007' && c != '\u202f')

/-- What a look past the end of a statement is in the middle of. -/
inductive Mode where
  /-- blanks -/
  | blanks
  /-- blanks directly behind a comment that has an end of its own -/
  | behindBlock
  /-- blanks and comments behind the first comment; `newline` tells that a comment reached into the
  next line -/
  | comments (newline : Bool)
  /-- a comment that ends with its line -/
  | line (newline : Bool)
  /-- a comment that has an end of its own -/
  | block (newline : Bool)

/-- The characters behind all blanks and comments, unless a slash stands there. -/
def behindComments? (mode : Mode) (chars : List Char) : Option (List Char) :=
  match mode, chars with
  | .line n, c :: rest => behindComments? (if isNewline c then .comments n else .line n) rest
  | .block n, '*' :: '/' :: rest => behindComments? (.comments n) rest
  | .block n, _ :: rest => behindComments? (.block n) rest
  | _, '/' :: '/' :: rest => behindComments? (.line false) rest
  | _, '/' :: '*' :: rest => behindComments? (.block false) rest
  | mode, c :: rest =>
    if isLineBlank c then behindComments? mode rest
    else if c = '/' then none
    else some chars
  | _, [] => some []
termination_by structural chars

/-- Does a line that starts with these characters begin a statement, rather than continue one? -/
def beginsStatement (chars : List Char) : Bool :=
  match chars with
  | [] => true
  | '.' :: rest => rest.head?.any isDecimal
  | '+' :: rest => rest.head? == some '+'
  | '-' :: rest => rest.head? == some '-'
  | '!' :: rest => rest.head? != some '='
  | 'i' :: 'n' :: rest =>
    rest.head?.any isLetter &&
      (!beginsWith rest "stanceof" || (rest.drop 8).head?.any isLetter)
  | c :: _ =>
    !(['\x60', ',', ':', ';', '*', '%', '>', '<', '=', '[', '(', '?', '^', '|', '&', '/'].contains c)

/-- Does the line behind a newline begin a statement? -/
def nextLineBegins (chars : List Char) : Bool :=
  (behindComments? .blanks chars).any beginsStatement

/-- May a semicolon be left out in front of these characters? After an expression a comment is looked
past only to find a closing brace; elsewhere (`bare`) one that ends with its line, or reaches into the
next, is enough. -/
def scan (bare : Bool) (mode : Mode) (chars : List Char) : Bool :=
  match mode, chars with
  | .blanks, [] => true
  | .behindBlock, [] => false
  | .comments _, [] => bare
  | .line _, [] => bare
  | .block _, [] => bare
  | .line n, c :: rest => scan bare (if isNewline c then .comments n else .line n) rest
  | .block n, '*' :: '/' :: rest =>
    if rest.head? == some '/' then scan bare (.comments n) rest
    else if n && bare && rest.head? != some ',' && rest.head? != some '=' then true
    else scan bare .behindBlock rest
  | .block n, c :: rest => scan bare (.block (n || isNewline c)) rest
  | .comments n, '/' :: '/' :: rest => scan bare (.line n) rest
  | .comments n, '/' :: '*' :: rest => scan bare (.block n) rest
  | .comments n, c :: rest =>
    if isLineBlank c then scan bare (.comments n) rest
    else c != '/' && (c = '}' || (bare && c != ',' && c != '='))
  | _, '/' :: '/' :: rest => scan bare (.line false) rest
  | _, '/' :: '*' :: rest => scan bare (.block false) rest
  | _, c :: rest =>
    if c = '}' then true
    else if isNewline c then nextLineBegins rest
    else isLineBlank c && scan bare .blanks rest
termination_by structural chars

/-- May a semicolon be left out in front of these characters? -/
def mayBeLeftOut (bare : Bool) (chars : List Char) : Bool :=
  scan bare .blanks chars

end LoggerLint.Script.Semicolon
