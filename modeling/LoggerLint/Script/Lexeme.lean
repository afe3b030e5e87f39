import LoggerLint.Console.Template
import LoggerLint.Script.Character
import LoggerLint.Syntax.Node

/-!
# Lexemes

`Lexeme.next` reads the next word, number, string or mark of a script, and the blanks and comments in
front of it. What a slash, a backtick or an angle bracket begins depends on the grammar, so regular
expressions, templates and the text of markup are scanned by functions of their own, which the parser
calls where they can stand.

A scanner takes the characters ahead and the offset of the first of them, and gives the `Place` after
what it read.
-/

namespace LoggerLint.Script

/-- A point in a script. -/
structure Place where
  /-- the characters from there on -/
  rest : List Char
  /-- its offset in bytes -/
  offset : Nat
  deriving Repr, Inhabited

/-! ## Blanks and comments -/

/-- What stands in front of a lexeme. -/
structure Trivia where
  /-- the place after it -/
  place : Place
  /-- does a line end in it -/
  lineBreak : Bool
  /-- its comments, the latest first -/
  comments : List Node
  deriving Inhabited

/-- What a scan of blanks and comments is in the middle of. -/
inductive TriviaMode where
  /-- between comments -/
  | between
  /-- in a comment that ends with its line and began at this offset -/
  | line (start : Nat)
  /-- in a comment that has an end of its own and began after `before` -/
  | block (before : Trivia)

/-- A comment. -/
def commentNode (start stop : Nat) : Node :=
  ⟨{ kind := "comment", start, stop }, []⟩

/-- Skip blanks and comments. A comment without an end is none. -/
def skipTrivia (mode : TriviaMode) (lineBreak : Bool) (comments : List Node) (offset : Nat)
    (chars : List Char) : Trivia :=
  match mode, chars with
  | .between, '/' :: '/' :: rest => skipTrivia (.line offset) lineBreak comments (offset + 2) rest
  | .between, '/' :: '*' :: rest =>
    skipTrivia (.block ⟨⟨chars, offset⟩, lineBreak, comments⟩) lineBreak comments (offset + 2) rest
  | .between, c :: rest =>
    if isBlank c then
      skipTrivia .between (lineBreak || isLineEnd c) comments (offset + c.utf8Size) rest
    else
      ⟨⟨chars, offset⟩, lineBreak, comments⟩
  | .between, [] => ⟨⟨[], offset⟩, lineBreak, comments⟩
  | .line start, c :: rest =>
    if isLineEnd c then
      skipTrivia .between true (commentNode start offset :: comments) (offset + c.utf8Size) rest
    else
      skipTrivia (.line start) lineBreak comments (offset + c.utf8Size) rest
  | .line start, [] => ⟨⟨[], offset⟩, lineBreak, commentNode start offset :: comments⟩
  | .block before, '*' :: '/' :: rest =>
    skipTrivia .between lineBreak (commentNode before.place.offset (offset + 2) :: comments)
      (offset + 2) rest
  | .block before, c :: rest =>
    skipTrivia (.block before) (lineBreak || isLineEnd c) comments (offset + c.utf8Size) rest
  | .block before, [] => before
termination_by structural chars

/-! ## Names -/

/-- Can an escape that stands for a character of a name begin with these characters? -/
def startsNameEscape : List Char → Bool
  | '\\' :: 'u' :: '{' :: rest => (Template.bracedHex? rest).isSome
  | '\\' :: 'u' :: rest => (Template.hexRun? 4 rest).isSome
  | _ => false

/-- Read on in a name: its characters, and the place after it. `escape` tells that the characters
ahead belong to an escape up to its closing brace. -/
def nameRest (escape : Bool) (offset : Nat) (chars : List Char) : List Char × Place :=
  match chars with
  | [] => ([], ⟨[], offset⟩)
  | c :: rest =>
    if escape then
      let (name, place) := nameRest (c != '}') (offset + c.utf8Size) rest
      (c :: name, place)
    else if isNameChar c then
      let (name, place) := nameRest false (offset + c.utf8Size) rest
      (c :: name, place)
    else if startsNameEscape chars then
      match rest with
      | u :: '{' :: rest =>
        let (name, place) := nameRest true (offset + 3) rest
        (c :: u :: '{' :: name, place)
      | u :: rest =>
        let (name, place) := nameRest false (offset + 2) rest
        (c :: u :: name, place)
      | [] => ([], ⟨chars, offset⟩)
    else
      ([], ⟨chars, offset⟩)
termination_by structural chars

/-- Does a name start with these characters? -/
def startsName (chars : List Char) : Bool :=
  startsNameEscape chars || chars.head?.any isNameStart

/-! ## Numbers -/

/-- Skip digits; a single underscore may stand between two of them. -/
def skipDigits (isDigit : Char → Bool) (offset : Nat) (chars : List Char) : Place :=
  match chars with
  | '_' :: c :: rest =>
    if isDigit c then skipDigits isDigit (offset + 1 + c.utf8Size) rest else ⟨chars, offset⟩
  | c :: rest => if isDigit c then skipDigits isDigit (offset + c.utf8Size) rest else ⟨chars, offset⟩
  | [] => ⟨[], offset⟩
termination_by structural chars

/-- Skip the mark of a big integer. -/
def skipBigMark (place : Place) : Place :=
  match place.rest with
  | 'n' :: rest => ⟨rest, place.offset + 1⟩
  | _ => place

/-- Skip an exponent, if one stands here. -/
def skipExponent (place : Place) : Place :=
  match place.rest with
  | e :: rest =>
    if e = 'e' || e = 'E' then
      match rest with
      | c :: digits =>
        if isDecimal c then skipDigits isDecimal (place.offset + 2) digits
        else if c = '+' || c = '-' then
          match digits with
          | d :: digits =>
            if isDecimal d then skipDigits isDecimal (place.offset + 3) digits else place
          | [] => place
        else place
      | [] => place
    else place
  | [] => place

/-- Skip the digits of a fraction and an exponent. -/
def skipFraction (place : Place) : Place :=
  let digits :=
    match place.rest with
    | c :: rest => if isDecimal c then skipDigits isDecimal (place.offset + 1) rest else place
    | [] => place
  skipExponent digits

/-- The digits that a number's first two characters announce, when they name a base. -/
def baseDigits? (mark : Char) : Option (Char → Bool) :=
  match mark with
  | 'x' | 'X' => some Digit.isHex
  | 'b' | 'B' => some fun c => c = '0' || c = '1'
  | 'o' | 'O' => some fun c => '0' ≤ c && c ≤ '7'
  | _ => none

/-- Skip a number that starts with a digit. -/
def skipDecimal (offset : Nat) (rest : List Char) : Place :=
  let place := skipDigits isDecimal (offset + 1) rest
  match place.rest with
  | 'n' :: rest => ⟨rest, place.offset + 1⟩
  | '.' :: rest => skipFraction ⟨rest, place.offset + 1⟩
  | _ => skipExponent place

/-- Skip a number, if one stands here. -/
def skipNumber? (offset : Nat) (chars : List Char) : Option Place :=
  match chars with
  | '0' :: mark :: d :: rest =>
    match baseDigits? mark with
    | some isDigit =>
      if isDigit d then some (skipBigMark (skipDigits isDigit (offset + 3) rest))
      else some (skipDecimal offset (mark :: d :: rest))
    | none => some (skipDecimal offset (mark :: d :: rest))
  | '.' :: d :: rest =>
    if isDecimal d then some (skipFraction ⟨d :: rest, offset + 1⟩) else none
  | d :: rest => if isDecimal d then some (skipDecimal offset rest) else none
  | [] => none

/-! ## Strings, templates and regular expressions -/

/-- Is the escape well formed that follows a backslash with these characters? -/
def isEscape : List Char → Bool
  | [] => false
  | 'x' :: rest => (Template.hexRun? 2 rest).isSome
  | 'u' :: '{' :: rest => (Template.bracedHex? rest).isSome
  | 'u' :: rest => (Template.hexRun? 4 rest).isSome
  | _ => true

/-- Skip the rest of a string up to its closing quote. -/
def skipString? (quote : Char) (offset : Nat) (chars : List Char) : Option Place :=
  match chars with
  | [] => none
  | '\\' :: '\r' :: '\n' :: rest => skipString? quote (offset + 3) rest
  | '\\' :: c :: rest =>
    if isEscape (c :: rest) then skipString? quote (offset + 1 + c.utf8Size) rest else none
  | c :: rest =>
    if c = quote then some ⟨rest, offset + 1⟩
    else if c = '\n' || c = '\r' || c = '\\' then none
    else skipString? quote (offset + c.utf8Size) rest
termination_by structural chars

/-- How a piece of a template ends. -/
inductive TemplateEnd where
  /-- with the closing backtick -/
  | close
  /-- with the opening of a substitution -/
  | substitution
  deriving DecidableEq

/-- Skip a piece of a template: the place at its end, and how it ends. -/
def skipTemplate? (offset : Nat) (chars : List Char) : Option (Place × TemplateEnd) :=
  match chars with
  | [] => none
  | '\\' :: c :: rest =>
    if isEscape (c :: rest) then skipTemplate? (offset + 1 + c.utf8Size) rest else none
  | '$' :: '{' :: rest => some (⟨rest, offset + 2⟩, .substitution)
  | c :: rest =>
    if c = '\x60' then some (⟨rest, offset + 1⟩, .close)
    else if c = '\\' then none
    else skipTemplate? (offset + c.utf8Size) rest
termination_by structural chars

/-- Skip the pattern of a regular expression and its closing slash; `inClass` tells that a class of
characters is open. -/
def skipRegex? (inClass : Bool) (offset : Nat) (chars : List Char) : Option Place :=
  match chars with
  | [] => none
  | '\\' :: c :: rest =>
    if c = '\n' then none else skipRegex? inClass (offset + 1 + c.utf8Size) rest
  | c :: rest =>
    if c = '\n' || c = '\\' then none
    else if inClass then skipRegex? (c != ']') (offset + c.utf8Size) rest
    else if c = '/' then some ⟨rest, offset + 1⟩
    else skipRegex? (c = '[') (offset + c.utf8Size) rest
termination_by structural chars

/-- Skip characters of a class. -/
def skipWhile (p : Char → Bool) (offset : Nat) (chars : List Char) : Place :=
  match chars with
  | c :: rest => if p c then skipWhile p (offset + c.utf8Size) rest else ⟨chars, offset⟩
  | [] => ⟨[], offset⟩
termination_by structural chars

/-! ## Lexemes -/

/-- What a lexeme is. -/
inductive Token where
  /-- a name or a keyword -/
  | word (text : String)
  /-- a private name -/
  | privateName
  /-- a number -/
  | number
  /-- a string -/
  | string
  /-- a mark -/
  | mark (text : String)
  /-- the end of the script -/
  | finish
  /-- none of these -/
  | unreadable
  deriving DecidableEq, Repr, Inhabited

/-- The marks of more than one character, the longest first. -/
def longMarks : List String :=
  [">>>=", "...", "===", "!==", "**=", "<<=", ">>=", ">>>", "&&=", "||=", "??=", "=>", "==", "!=",
   "<=", ">=", "&&", "||", "??", "?.", "++", "--", "+=", "-=", "*=", "/=", "%=", "&=", "|=", "^=",
   "<<", ">>", "**"]

/-- Do these characters begin with a text? -/
def beginsWith (chars : List Char) (text : String) : Bool :=
  text.toList.isPrefixOf chars

/-- The mark at the head of these characters. -/
def markAt (chars : List Char) : String :=
  let long := longMarks.find? (beginsWith chars)
  match long, chars with
  | some "?.", _ :: _ :: d :: _ => if isDecimal d then "?" else "?."
  | some mark, _ => mark
  | none, c :: _ => String.singleton c
  | none, [] => ""

/-- A lexeme of a script. -/
structure Lexeme where
  /-- what it is -/
  token : Token
  /-- where it starts -/
  start : Nat
  /-- the characters from its start on -/
  chars : List Char
  /-- the place after it -/
  after : Place
  /-- does a line end in front of it -/
  lineBreak : Bool
  /-- the comments in front of it, the latest first -/
  comments : List Node
  deriving Inhabited

/-- The token at the head of these characters, and the place after it. -/
def tokenAt (offset : Nat) (chars : List Char) : Token × Place :=
  match chars with
  | [] => (.finish, ⟨[], offset⟩)
  | c :: rest =>
    if startsName chars then
      let (name, place) := nameRest false offset chars
      (.word (String.ofList name), place)
    else if c = '"' || c = '\'' then
      match skipString? c (offset + 1) rest with
      | some place => (.string, place)
      | none => (.unreadable, ⟨chars, offset⟩)
    else if c = '#' then
      if startsName rest then (.privateName, (nameRest false (offset + 1) rest).2)
      else (.unreadable, ⟨chars, offset⟩)
    else
      match skipNumber? offset chars with
      | some place => (.number, place)
      | none =>
        if marks.contains c && c != '\\' then
          let mark := markAt chars
          (.mark mark, ⟨chars.drop mark.length, offset + mark.length⟩)
        else
          (.unreadable, ⟨chars, offset⟩)

/-- The next lexeme after a place. -/
def Lexeme.next (place : Place) : Lexeme :=
  let trivia := skipTrivia .between false [] place.offset place.rest
  let (token, after) := tokenAt trivia.place.offset trivia.place.rest
  { token, start := trivia.place.offset, chars := trivia.place.rest, after
    lineBreak := trivia.lineBreak, comments := trivia.comments }

/-- Is the lexeme this mark? -/
def Lexeme.isMark (lexeme : Lexeme) (mark : String) : Bool :=
  lexeme.token == .mark mark

/-- Is the lexeme this word? -/
def Lexeme.isWord (lexeme : Lexeme) (word : String) : Bool :=
  lexeme.token == .word word

/-- Is the lexeme one of these marks? -/
def Lexeme.isOneOf (lexeme : Lexeme) (list : List String) : Bool :=
  match lexeme.token with
  | .mark mark => list.contains mark
  | _ => false

/-- Is the lexeme a word that can name a variable? -/
def Lexeme.isName (lexeme : Lexeme) : Bool :=
  match lexeme.token with
  | .word word => !isReserved word
  | _ => false

end LoggerLint.Script
