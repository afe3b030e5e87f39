import LoggerLint.Lint
import LoggerLint.Proofs.Text.Position
import LoggerLint.Proofs.Text.Utf8

/-!
# Sources that are no text

Bytes are `WellFormed` if they are put together from forms of characters (`Utf8.Spells`), whatever a decoder does
with them. Decoding fails on all other bytes, and it fails where the longest well-formed beginning ends
(`Utf8.longestPrefix_of_decode`): a form that is cut short, too long, or that spells a surrogate or a number above
U+10FFFF is told from its first byte on.

So a source is refused as no text exactly if it is malformed, and the place that is told is that of the end of its
longest well-formed beginning (`malformed_refused`), whatever the parser would have made of it.
-/

namespace LoggerLint

namespace Utf8

/-! ## Well-formed bytes -/

/-- **Well-formed bytes**: one form of a character after another. -/
inductive WellFormed : Bytes → Prop where
  /-- no character -/
  | nil : WellFormed []
  /-- a character and more -/
  | cons {head rest : Bytes} {v : Nat} (hhead : Spells head v) (hrest : WellFormed rest) :
      WellFormed (head ++ rest)

/-- A form is what is written for the character that it spells. -/
theorem Spells.eq_encodeChar {bytes : Bytes} {v : Nat} (h : Spells bytes v) :
    bytes = Utf8.encodeChar (Char.ofNat v) := by
  have hv : (Char.ofNat v).toNat = v := by
    rw [Char.ofNat, dif_pos h.isValidChar]
    rfl
  exact h.unique (Spells.encodeChar (Char.ofNat v)) hv.symm

/-- The well-formed bytes are the encodings of texts. -/
theorem wellFormed_iff {bytes : Bytes} : WellFormed bytes ↔ ∃ chars, bytes = encode chars := by
  constructor
  · intro h
    induction h with
    | nil => exact ⟨[], rfl⟩
    | @cons head rest v hhead _ ih =>
      obtain ⟨chars, rfl⟩ := ih
      exact ⟨Char.ofNat v :: chars, by rw [encode_cons, ← hhead.eq_encodeChar]⟩
  · rintro ⟨chars, rfl⟩
    induction chars with
    | nil => exact .nil
    | cons c chars ih =>
      rw [encode_cons]
      exact .cons (Spells.encodeChar c) ih

/-! ## The longest well-formed beginning -/

/-- The longest well-formed beginning of bytes ends at this offset. -/
structure LongestPrefix (bytes : Bytes) (n : Nat) : Prop where
  /-- it is a beginning -/
  le_length : n ≤ bytes.length
  /-- it is well-formed -/
  wellFormed : WellFormed (bytes.take n)
  /-- no longer one is -/
  le_of_wellFormed : ∀ m ≤ bytes.length, WellFormed (bytes.take m) → m ≤ n

theorem LongestPrefix.unique {bytes : Bytes} {n m : Nat} (h : LongestPrefix bytes n)
    (h' : LongestPrefix bytes m) : n = m :=
  Nat.le_antisymm (h'.le_of_wellFormed n h.le_length h.wellFormed)
    (h.le_of_wellFormed m h'.le_length h'.wellFormed)

/-- Bytes are well-formed exactly if nothing follows their longest well-formed beginning. -/
theorem LongestPrefix.wellFormed_iff {bytes : Bytes} {n : Nat} (h : LongestPrefix bytes n) :
    WellFormed bytes ↔ n = bytes.length := by
  constructor
  · intro hbytes
    refine Nat.le_antisymm h.le_length (h.le_of_wellFormed _ (Nat.le_refl _) ?_)
    rwa [List.take_length]
  · rintro rfl
    have hall := h.wellFormed
    rwa [List.take_length] at hall

/-- What no character begins ends the longest well-formed beginning. -/
theorem longestPrefix_of_broken (chars : List Char) {rest stray : Bytes} (hrest : read rest = .broken stray) :
    LongestPrefix (encode chars ++ rest) (encode chars).length where
  le_length := by
    rw [List.length_append]
    exact Nat.le_add_right _ _
  wellFormed := by
    rw [List.take_left]
    exact wellFormed_iff.mpr ⟨chars, rfl⟩
  le_of_wellFormed := by
    intro m hm hprefix
    refine Nat.le_of_not_lt fun hlt => ?_
    -- a longer beginning would hold the first bytes of `rest`, and a character would start there
    obtain ⟨longer, hlonger⟩ := wellFormed_iff.mp hprefix
    rw [List.take_append, List.take_of_length_le (by omega)] at hlonger
    obtain ⟨after, -, hafter⟩ := exists_eq_append_of_encode_eq hlonger.symm
    have hsplit := List.take_append_drop (m - (encode chars).length) rest
    rw [hafter] at hsplit
    cases after with
    | nil =>
      have hlength := congrArg List.length hafter
      rw [List.length_take, encode_nil, List.length_nil] at hlength
      rw [List.length_append] at hm
      omega
    | cons c after =>
      rw [encode_cons, List.append_assoc] at hsplit
      rw [read_eq_char_iff.mpr hsplit.symm] at hrest
      cases hrest

theorem exists_of_decodeFrom_error {offset fault : Nat} {bytes : Bytes}
    (h : decodeFrom offset bytes = .error fault) :
    ∃ chars rest stray, bytes = encode chars ++ rest ∧ fault = offset + (encode chars).length ∧
      read rest = .broken stray := by
  fun_induction decodeFrom offset bytes with
  | case1 offset bytes hread => cases h
  | case2 offset bytes stray hread =>
    exact ⟨[], bytes, stray, rfl, (Except.error.inj h).symm, hread⟩
  | case3 offset bytes c rest hread hlt ih =>
    rcases hdecode : decodeFrom (offset + c.utf8Size) rest with fault' | found
    · rw [hdecode] at h ih
      obtain rfl := Except.error.inj h
      obtain ⟨chars, tail, stray, rfl, hfault, htail⟩ := ih rfl
      refine ⟨c :: chars, tail, stray, ?_, ?_, htail⟩
      · rw [read_eq_char_iff.mp hread, encode_cons, List.append_assoc]
      · rw [hfault, encode_cons, List.length_append, length_encodeChar, Nat.add_assoc]
    · rw [hdecode] at h
      cases h

/-- **Decoding fails where the longest well-formed beginning ends.** -/
theorem longestPrefix_of_decode {bytes : Bytes} {fault : Nat} (h : decode bytes = .error fault) :
    LongestPrefix bytes fault ∧ ¬ WellFormed bytes := by
  obtain ⟨chars, rest, stray, rfl, hfault, hrest⟩ := exists_of_decodeFrom_error h
  rw [Nat.zero_add] at hfault
  subst hfault
  have hlongest := longestPrefix_of_broken chars hrest
  refine ⟨hlongest, fun hall => ?_⟩
  have hlength := hlongest.wellFormed_iff.mp hall
  rw [List.length_append] at hlength
  obtain rfl : rest = [] := List.eq_nil_of_length_eq_zero (by omega)
  cases hrest

/-- Bytes decode exactly if they are well-formed. -/
theorem exists_decode_iff {bytes : Bytes} : (∃ chars, decode bytes = .ok chars) ↔ WellFormed bytes := by
  simp only [decode_eq_ok_iff, wellFormed_iff]

end Utf8

/-! ## Refused sources -/

open Utf8 Position

/-- **A source is refused as no text exactly if it is malformed**, whatever the parser would make of it. What is
told then is the file, and the line and the column at which its longest well-formed beginning ends. -/
theorem malformed_refused (parse : Parser) (globals : List String) (source : Bytes) (path : String) :
    ((∃ error, readScopes parse globals source path = .error error ∧
      error.fault.reason = "invalid UTF-8") ↔ ¬ WellFormed source) ∧
    ∀ error, readScopes parse globals source path = .error error → error.fault.reason = "invalid UTF-8" →
      error.path = path ∧ ∃ n, LongestPrefix source n ∧
        error.position.line = 1 + (source.take n).count lineFeed ∧
        error.position.col = n - lineStart source n + 1 := by
  rcases hdecode : decode source with fault | chars
  · obtain ⟨hlongest, hmalformed⟩ := longestPrefix_of_decode hdecode
    have hrefused : readScopes parse globals source path =
        .error ⟨path, .ofOffset source fault, .invalidUtf8⟩ := by
      rw [readScopes, hdecode]
    refine ⟨⟨fun _ => hmalformed, fun _ => ⟨_, hrefused, rfl⟩⟩, ?_⟩
    intro error herror _
    rw [hrefused] at herror
    obtain rfl := Except.error.inj herror
    refine ⟨rfl, fault, hlongest, ?_, ?_⟩
    · rw [ofOffset_eq, Nat.add_comm]
    · rw [ofOffset_eq]
  · -- a text can be refused for its syntax only
    have hreason : ∀ error, readScopes parse globals source path = .error error →
        error.fault.reason ≠ "invalid UTF-8" := by
      intro error herror
      rw [readScopes, hdecode] at herror
      simp only at herror
      split at herror
      · obtain rfl := Except.error.inj herror
        show "syntax error" ≠ "invalid UTF-8"
        decide
      · cases herror
    refine ⟨⟨?_, ?_⟩, ?_⟩
    · rintro ⟨error, herror, hinvalid⟩
      exact absurd hinvalid (hreason error herror)
    · intro hmalformed
      exact absurd (exists_decode_iff.mp ⟨chars, hdecode⟩) hmalformed
    · intro error herror hinvalid
      exact absurd hinvalid (hreason error herror)

/-- A source with an encoded surrogate on its second line, behind a character of two bytes. -/
def surrogateSource : Bytes :=
  encode "a;\r\né".toList ++ [0xED, 0xA0, 0x80]

/-- It is refused at the first byte of the surrogate. -/
theorem malformed_refused_surrogate :
    ¬ WellFormed surrogateSource ∧
    ∃ error, readScopes (fun _ => default) [] surrogateSource "a.js" = .error error ∧
      error.message = "a.js:2:3: invalid UTF-8" := by
  have hbroken : read [0xED, 0xA0, 0x80] = .broken [0xA0, 0x80] := rfl
  have hlongest : LongestPrefix surrogateSource 6 := longestPrefix_of_broken "a;\r\né".toList hbroken
  have hmalformed : ¬ WellFormed surrogateSource := by
    rw [hlongest.wellFormed_iff]
    decide
  obtain ⟨hrefused, htold⟩ := malformed_refused (fun _ => default) [] surrogateSource "a.js"
  obtain ⟨error, herror, hreason⟩ := hrefused.mpr hmalformed
  obtain ⟨hpath, n, hn, hline, hcol⟩ := htold error herror hreason
  obtain rfl := hn.unique hlongest
  refine ⟨hmalformed, error, herror, ?_⟩
  rw [SourceError.message, hpath, hline, hcol, hreason]
  decide

end LoggerLint
