/-!
# Blank characters

Two sets of blanks: the characters with the Unicode property White_Space, and these with the four
separators of the C0 controls, which end lines and records in older texts.
-/

namespace LoggerLint.Blank

/-- Is this a character with the property White_Space? -/
def isWhiteSpace (c : Char) : Bool :=
  c = ' ' || ('\t' ≤ c && c ≤ '\r') || c = '\u0085' || c = '\u00a0' || c = '\u1680' ||
    ('\u2000' ≤ c && c ≤ '\u200a') || c = '\u2028' || c = '\u2029' || c = '\u202f' ||
    c = '\u205f' || c = '\u3000'

/-- Is this white space or one of the four separators? -/
def isBlank (c : Char) : Bool :=
  isWhiteSpace c || ('\x1c' ≤ c && c ≤ '\x1f')

/-- A text without the blanks at its end. -/
def trimEnd (cs : List Char) : List Char :=
  (cs.reverse.dropWhile isBlank).reverse

theorem isBlank_of_isWhiteSpace {c : Char} (h : isWhiteSpace c = true) : isBlank c = true := by
  simp [isBlank, h]

end LoggerLint.Blank
