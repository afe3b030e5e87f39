/-!
# UTF-8

A source file is a sequence of bytes; names and messages are characters. This module goes from one
to the other in three ways:

* `encode`: the bytes of a text;
* `decode`: the text of well-formed bytes, or the offset of the first byte that is not;
* `decodeLossy`: the text of any bytes, with every malformed run left out.

All three rest on `read`, which looks at what stands at the head of a byte sequence.
-/

namespace LoggerLint

/-- The content of a file. -/
abbrev Bytes := List UInt8

namespace Utf8

/-! ## Writing -/

/-- The bytes of one character. -/
def encodeChar (c : Char) : Bytes :=
  String.utf8EncodeChar c

/-- The bytes of a text. -/
def encode (text : List Char) : Bytes :=
  text.flatMap encodeChar

@[simp]
theorem encode_nil : encode [] = [] := rfl

@[simp]
theorem encode_cons (c : Char) (cs : List Char) :
    encode (c :: cs) = encodeChar c ++ encode cs := rfl

theorem encode_append (xs ys : List Char) : encode (xs ++ ys) = encode xs ++ encode ys := by
  simp [encode]

theorem length_encodeChar (c : Char) : (encodeChar c).length = c.utf8Size :=
  String.length_utf8EncodeChar c

/-! ## Reading the head -/

/-- What the first byte of a character announces. -/
structure Lead where
  /-- how many more bytes belong to the character -/
  owed : Nat
  /-- the least value of the second byte -/
  low : UInt8
  /-- the greatest value of the second byte -/
  high : UInt8
  /-- the bits the first byte contributes -/
  bits : Nat

/-- The announcement of a first byte, if a character can start with it. The ranges of the second
byte leave out overlong forms, surrogates and everything above U+10FFFF. -/
def lead? (b : UInt8) : Option Lead :=
  if b < 0x80 then some ⟨0, 0x80, 0xBF, b.toNat⟩
  else if b < 0xC2 then none
  else if b < 0xE0 then some ⟨1, 0x80, 0xBF, b.toNat - 0xC0⟩
  else if b = 0xE0 then some ⟨2, 0xA0, 0xBF, 0⟩
  else if b = 0xED then some ⟨2, 0x80, 0x9F, 0xD⟩
  else if b < 0xF0 then some ⟨2, 0x80, 0xBF, b.toNat - 0xE0⟩
  else if b = 0xF0 then some ⟨3, 0x90, 0xBF, 0⟩
  else if b < 0xF4 then some ⟨3, 0x80, 0xBF, b.toNat - 0xF0⟩
  else if b = 0xF4 then some ⟨3, 0x80, 0x8F, 4⟩
  else none

/-- What stands at the head of a byte sequence. -/
inductive Reading where
  /-- nothing: the sequence is empty -/
  | done
  /-- a character, and the bytes after it -/
  | char (c : Char) (rest : Bytes)
  /-- no character; `rest` follows the longest run that could still have begun one -/
  | broken (rest : Bytes)

/-- Read the `owed` further bytes of a character whose bits so far are `bits`; the next byte has to
lie between `low` and `high`, the later ones in the whole continuation range. -/
def readTail : (owed : Nat) → (low high : UInt8) → (bits : Nat) → Bytes → Reading
  | 0, _, _, bits, rest => .char (Char.ofNat bits) rest
  | _ + 1, _, _, _, [] => .broken []
  | owed + 1, low, high, bits, b :: rest =>
    if low ≤ b ∧ b ≤ high then
      readTail owed 0x80 0xBF (bits * 64 + (b.toNat - 0x80)) rest
    else
      .broken (b :: rest)

/-- Look at the head of a byte sequence. -/
def read : Bytes → Reading
  | [] => .done
  | b :: rest =>
    match lead? b with
    | none => .broken rest
    | some lead => readTail lead.owed lead.low lead.high lead.bits rest

/-- The bytes left by a reading. -/
def Reading.rest : Reading → Bytes
  | .done => []
  | .char _ rest => rest
  | .broken rest => rest

theorem length_rest_readTail (owed : Nat) (low high : UInt8) (bits : Nat) (bytes : Bytes) :
    (readTail owed low high bits bytes).rest.length ≤ bytes.length := by
  induction owed generalizing low high bits bytes with
  | zero => simp [readTail, Reading.rest]
  | succ owed ih =>
    cases bytes with
    | nil => simp [readTail, Reading.rest]
    | cons b rest =>
      by_cases h : low ≤ b ∧ b ≤ high
      · have := ih 0x80 0xBF (bits * 64 + (b.toNat - 0x80)) rest
        simp only [readTail, h, and_self, if_true, List.length_cons]
        omega
      · simp [readTail, h, Reading.rest]

/-- A reading of something uses up at least one byte. -/
theorem length_rest_read (b : UInt8) (rest : Bytes) :
    (read (b :: rest)).rest.length < (b :: rest).length := by
  simp only [read, List.length_cons]
  cases lead? b with
  | none => simp [Reading.rest]
  | some lead =>
    have := length_rest_readTail lead.owed lead.low lead.high lead.bits rest
    simp only
    omega

theorem length_lt_of_read_char {bytes rest : Bytes} {c : Char}
    (h : read bytes = .char c rest) : rest.length < bytes.length := by
  cases bytes with
  | nil => simp [read] at h
  | cons b bs =>
    have := length_rest_read b bs
    rw [h] at this
    exact this

theorem length_lt_of_read_broken {bytes rest : Bytes}
    (h : read bytes = .broken rest) : rest.length < bytes.length := by
  cases bytes with
  | nil => simp [read] at h
  | cons b bs =>
    have := length_rest_read b bs
    rw [h] at this
    exact this

/-! ## Reading it all -/

/-- Decode `bytes`, which stand at `offset`; the error is the offset of the first malformed run. -/
def decodeFrom (offset : Nat) (bytes : Bytes) : Except Nat (List Char) :=
  match h : read bytes with
  | .done => .ok []
  | .broken _ => .error offset
  | .char c rest =>
    have := length_lt_of_read_char h
    (decodeFrom (offset + c.utf8Size) rest).map (c :: ·)
termination_by bytes.length

/-- The text of well-formed bytes; otherwise the offset at which the first malformed run starts. -/
def decode (bytes : Bytes) : Except Nat (List Char) :=
  decodeFrom 0 bytes

/-- The text of any bytes: malformed runs are left out. -/
def decodeLossy (bytes : Bytes) : List Char :=
  match h : read bytes with
  | .done => []
  | .broken rest =>
    have := length_lt_of_read_broken h
    decodeLossy rest
  | .char c rest =>
    have := length_lt_of_read_char h
    c :: decodeLossy rest
termination_by bytes.length

end Utf8

end LoggerLint
