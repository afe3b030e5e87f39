import LoggerLint.Text.Digit

/-!
# Characters of a script

Which characters separate words, which end a line, and which can stand in a name. A name may hold any
character that is neither a blank nor a mark of the language, so it is the marks that are listed.
-/

namespace LoggerLint.Script

/-- Does this character end a line? -/
def isLineEnd (c : Char) : Bool :=
  c = '\n' || c = '\r' || c = '\u2028' || c = '\u2029'

/-- Does a line that ends in this character count as ended where a semicolon may be left out? -/
def isNewline (c : Char) : Bool :=
  c = '\n' || c = '\u2028' || c = '\u2029'

/-- The ASCII blanks. -/
def isAsciiBlank (c : Char) : Bool :=
  c = ' ' || ('\t' ≤ c && c ≤ '\r')

/-- The space separators of Unicode. -/
def isSpaceSeparator (c : Char) : Bool :=
  c = ' ' || c = '\u00a0' || c = '\u1680' || ('\u2000' ≤ c && c ≤ '\u200a') || c = '\u202f' ||
    c = '\u205f' || c = '\u3000'

/-- Does this character only separate words? -/
def isBlank (c : Char) : Bool :=
  isAsciiBlank c || isSpaceSeparator c || c = '\ufeff' || c = '\u2028' || c = '\u2029' ||
    c = '\u2060' || c = '\u200b'

/-- The marks that no name holds. -/
def marks : List Char :=
  [':', ';', '\x60', '"', '\'', '@', '#', '.', ',', '|', '^', '&', '<', '=', '>', '+', '-', '*', '/',
   '\\', '%', '?', '!', '~', '(', ')', '[', ']', '{', '}']

/-- Can this character stand in a name? -/
def isNameChar (c : Char) : Bool :=
  !(c ≤ '\x1f' || isBlank c || marks.contains c)

/-- Is this a decimal digit? -/
def isDecimal (c : Char) : Bool :=
  '0' ≤ c && c ≤ '9'

/-- Can a name start with this character? -/
def isNameStart (c : Char) : Bool :=
  isNameChar c && !isDecimal c

/-- Is this an ASCII letter? -/
def isLetter (c : Char) : Bool :=
  ('a' ≤ c && c ≤ 'z') || ('A' ≤ c && c ≤ 'Z')

/-- Words that are never names of variables. -/
def reservedWords : List String :=
  ["break", "case", "catch", "class", "const", "continue", "debugger", "default", "delete", "do",
   "else", "export", "extends", "false", "finally", "for", "function", "if", "import", "in",
   "instanceof", "new", "null", "return", "super", "switch", "this", "throw", "true", "try", "typeof",
   "var", "void", "while", "with"]

/-- Is this word never the name of a variable? -/
def isReserved (word : String) : Bool :=
  reservedWords.contains word

end LoggerLint.Script
