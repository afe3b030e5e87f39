import LoggerLint.Text.Utf8

/-!
# Positions in a source

Offsets count bytes from the start of a file. People are told lines and columns, both counted from
one; a column counts bytes as well, and only a line feed ends a line.
-/

namespace LoggerLint

/-- A line and a column, both counted from one. -/
structure Position where
  /-- the line -/
  line : Nat
  /-- the column, in bytes -/
  col : Nat
  deriving DecidableEq, Repr, Inhabited

namespace Position

/-- The byte that ends a line. -/
def lineFeed : UInt8 := 0x0A

/-- How many line feeds stand in `bytes`, and how many bytes follow the last one. -/
def measure (bytes : Bytes) : Nat × Nat :=
  bytes.foldl (fun (lines, tail) b => if b = lineFeed then (lines + 1, 0) else (lines, tail + 1)) (0, 0)

/-- The position of an offset. An offset past the end lies on the last line. -/
def ofOffset (source : Bytes) (offset : Nat) : Position :=
  let (lines, tail) := measure (source.take offset)
  ⟨lines + 1, tail + (offset - source.length) + 1⟩

end Position

end LoggerLint
