import LoggerLint.Text.Digit

/-!
# Texts in TOML

Blanks, comments and the four kinds of quoted text: basic and literal, on one line or on several.
Every reader takes the characters that are left and gives back what it read with those after it, or
nothing when they are malformed.
-/

namespace LoggerLint.Toml

/-! ## Characters -/

/-- A blank within a line. -/
def isBlank (c : Char) : Bool :=
  c = ' ' || c = '\t'

/-- A blank or the end of a line. -/
def isGap (c : Char) : Bool :=
  isBlank c || c = '\n'

/-- A control character other than the tab may stand in no comment and no text. -/
def isControl (c : Char) : Bool :=
  (c.toNat < 0x20 && c ≠ '\t') || c.toNat = 0x7F

/-- A control character that may not even stand in a text of several lines. -/
def isControlInLines (c : Char) : Bool :=
  isControl c && c ≠ '\n'

/-- A character of a key without quotes. -/
def isBareKey (c : Char) : Bool :=
  c.isAlphanum || c = '-' || c = '_'

/-! ## Between the tokens -/

/-- Skip blanks. -/
def skipBlanks (cs : List Char) : List Char :=
  cs.dropWhile isBlank

/-- Skip a comment, if one starts here, up to the end of its line. -/
def skipComment? : List Char → Option (List Char)
  | '#' :: cs =>
    if (cs.takeWhile (· ≠ '\n')).any isControl then none else some (cs.dropWhile (· ≠ '\n'))
  | cs => some cs

/-- Skip blanks, ends of lines and comments; each of at most `fuel` lines takes one round. -/
def skipLines? : (fuel : Nat) → List Char → Option (List Char)
  | 0, cs => some cs
  | fuel + 1, cs =>
    match cs.dropWhile isGap with
    | '#' :: rest => (skipComment? ('#' :: rest)).bind (skipLines? fuel)
    | rest => some rest

/-! ## Literal texts -/

/-- The text up to the closing apostrophe. -/
def literal? (cs : List Char) : Option (List Char × List Char) :=
  let text := cs.takeWhile (· ≠ '\'')
  match cs.dropWhile (· ≠ '\'') with
  | _ :: rest => if text.any isControl then none else some (text, rest)
  | [] => none

/-- The text up to three apostrophes. -/
def untilThree? : List Char → Option (List Char × List Char)
  | '\'' :: '\'' :: '\'' :: rest => some ([], rest)
  | c :: rest => (untilThree? rest).map fun (text, rest) => (c :: text, rest)
  | [] => none

/-! ## Basic texts -/

/-- Where the reader of a basic text stands. -/
inductive Spot where
  /-- in the text itself -/
  | text
  /-- after a backslash and blanks, where the line has to end -/
  | beforeBreak
  /-- after a backslash and the end of its line: blanks and further ends of lines do not count -/
  | afterBreak
  deriving DecidableEq, Repr

/-- The characters that a single letter after a backslash stands for. -/
def escape? : Char → Option Char
  | 'b' => some '\x08'
  | 't' => some '\t'
  | 'n' => some '\n'
  | 'f' => some '\x0c'
  | 'r' => some '\r'
  | '"' => some '"'
  | '\\' => some '\\'
  | _ => none

/-- The character whose number these hexadecimal digits spell. -/
def scalar? (digits : List Char) : Option Char :=
  let n := Digit.ofHex digits
  if digits.all Digit.isHex && n.isValidChar then some (Char.ofNat n) else none

/-- The text up to the closing quote, or to three of them when it may have `several` lines. -/
def basic? (several : Bool) : Spot → List Char → Option (List Char × List Char)
  | _, [] => none
  | .beforeBreak, c :: rest =>
    if isBlank c then basic? several .beforeBreak rest
    else if c = '\n' then basic? several .afterBreak rest
    else none
  | _, '"' :: rest =>
    if several then
      match rest with
      | '"' :: '"' :: rest => some ([], rest)
      | _ => (basic? several .text rest).map fun (text, rest) => ('"' :: text, rest)
    else
      some ([], rest)
  | _, '\\' :: 'u' :: a :: b :: c :: d :: rest => do
    let char ← scalar? [a, b, c, d]
    let (text, rest) ← basic? several .text rest
    return (char :: text, rest)
  | _, '\\' :: 'U' :: a :: b :: c :: d :: e :: f :: g :: h :: rest => do
    let char ← scalar? [a, b, c, d, e, f, g, h]
    let (text, rest) ← basic? several .text rest
    return (char :: text, rest)
  | _, '\\' :: c :: rest =>
    if several && isBlank c then
      basic? several .beforeBreak rest
    else if several && c = '\n' then
      basic? several .afterBreak rest
    else do
      let char ← escape? c
      let (text, rest) ← basic? several .text rest
      return (char :: text, rest)
  | spot, c :: rest =>
    if spot = .afterBreak && isGap c then
      basic? several .afterBreak rest
    else if c = '\\' || (if several then isControlInLines c else isControl c) then
      none
    else
      (basic? several .text rest).map fun (text, rest) => (c :: text, rest)

/-! ## Texts as values -/

/-- The end of a line right after the opening quotes does not count. -/
def skipFirstBreak : List Char → List Char
  | '\n' :: cs => cs
  | cs => cs

/-- Up to two more quotes before the closing ones belong to the text. -/
def moreQuotes (quote : Char) (text : List Char) : List Char → List Char × List Char
  | a :: b :: rest =>
    if a = quote && b = quote then (text ++ [quote, quote], rest)
    else if a = quote then (text ++ [quote], b :: rest)
    else (text, a :: b :: rest)
  | [a] => if a = quote then (text ++ [quote], []) else (text, [a])
  | [] => (text, [])

/-- A quoted text of any kind, from its opening quote on. -/
def quoted? : List Char → Option (List Char × List Char)
  | '"' :: '"' :: '"' :: rest => do
    let (text, rest) ← basic? true .text (skipFirstBreak rest)
    return moreQuotes '"' text rest
  | '"' :: rest => basic? false .text rest
  | '\'' :: '\'' :: '\'' :: rest => do
    let (text, rest) ← untilThree? (skipFirstBreak rest)
    if text.any isControlInLines then none else some (moreQuotes '\'' text rest)
  | '\'' :: rest => literal? rest
  | _ => none

end LoggerLint.Toml
