import LoggerLint.Text.Utf8

/-!
# Code points

The escapes of a template literal can name any code point, and so also a surrogate, which is no
character and has no UTF-8 form. A `Text` is a sequence of code points; it is `encode?`d only when
every one of them is a character.
-/

namespace LoggerLint

/-- A code point: a character, or one of the surrogates from U+D800 to U+DFFF. -/
inductive CodePoint where
  /-- a Unicode scalar value -/
  | scalar (c : Char)
  /-- the surrogate at this distance from U+D800 -/
  | surrogate (index : Fin 0x800)
  deriving DecidableEq, Repr, Inhabited

namespace CodePoint

/-- The number of a code point. -/
def toNat : CodePoint → Nat
  | .scalar c => c.toNat
  | .surrogate i => 0xD800 + i.val

/-- The code point of a number, if there is one. -/
def ofNat? (n : Nat) : Option CodePoint :=
  if h : n.isValidChar then
    some (.scalar (Char.ofNatAux n h))
  else if h : 0xD800 ≤ n ∧ n < 0xE000 then
    some (.surrogate ⟨n - 0xD800, by omega⟩)
  else
    none

end CodePoint

/-- A text that may hold surrogates. -/
abbrev Text := List CodePoint

namespace Text

/-- The text of these characters. -/
def ofChars (cs : List Char) : Text :=
  cs.map .scalar

/-- The text of a string. -/
def ofString (s : String) : Text :=
  ofChars s.toList

/-- The characters of a text, if it holds no surrogate. -/
def chars? : Text → Option (List Char)
  | [] => some []
  | .scalar c :: rest => (chars? rest).map (c :: ·)
  | .surrogate _ :: _ => none

/-- The UTF-8 form of a text, if it holds no surrogate. -/
def encode? (text : Text) : Option Bytes :=
  text.chars?.map Utf8.encode

/-- Texts with a separator between each two of them. -/
def join (separator : Text) : List Text → Text
  | [] => []
  | [text] => text
  | text :: rest => text ++ separator ++ join separator rest

@[simp]
theorem chars?_ofChars (cs : List Char) : chars? (ofChars cs) = some cs := by
  induction cs with
  | nil => rfl
  | cons c cs ih =>
    simp only [ofChars, List.map_cons, chars?] at ih ⊢
    simp [ih]

/-- A text made of characters can always be written. -/
@[simp]
theorem encode?_ofChars (cs : List Char) : encode? (ofChars cs) = some (Utf8.encode cs) := by
  simp [encode?]

end Text

end LoggerLint
