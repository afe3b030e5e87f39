import LoggerLint.Text.Utf8

/-!
# Well-formed UTF-8

Reading and writing are inverse to each other: `read_eq_char_iff` says so for the character at the head
of a byte sequence, and `decode_eq_ok_iff` for a whole text. So bytes decode exactly when they are the
encoding of a text, and what was cut off such bytes after a whole number of characters is an encoding
again (`exists_drop_eq_encode`).

A `Boundary` of a source is an offset before which a whole number of characters stands.
-/

namespace LoggerLint.Utf8

/-! ## One character -/

theorem lead?_ofNat {n : Nat} (hn : n < 256) :
    lead? (UInt8.ofNat n) =
      if n < 0x80 then some ⟨0, 0x80, 0xBF, n⟩
      else if n < 0xC2 then none
      else if n < 0xE0 then some ⟨1, 0x80, 0xBF, n - 0xC0⟩
      else if n = 0xE0 then some ⟨2, 0xA0, 0xBF, 0⟩
      else if n = 0xED then some ⟨2, 0x80, 0x9F, 0xD⟩
      else if n < 0xF0 then some ⟨2, 0x80, 0xBF, n - 0xE0⟩
      else if n = 0xF0 then some ⟨3, 0x90, 0xBF, 0⟩
      else if n < 0xF4 then some ⟨3, 0x80, 0xBF, n - 0xF0⟩
      else if n = 0xF4 then some ⟨3, 0x80, 0x8F, 4⟩
      else none := by
  have hsize : n % 2 ^ 8 = n := Nat.mod_eq_of_lt hn
  simp only [lead?, UInt8.lt_iff_toNat_lt, ← UInt8.toNat_inj, UInt8.toNat_ofNat', hsize]
  rfl

/-- The row of the leads of three bytes. -/
theorem lead?_three {n : Nat} (hn : 0xE0 ≤ n ∧ n < 0xF0) :
    lead? (UInt8.ofNat n) = some ⟨2, UInt8.ofNat (if n = 0xE0 then 0xA0 else 0x80),
      UInt8.ofNat (if n = 0xED then 0x9F else 0xBF), n - 0xE0⟩ := by
  rw [lead?_ofNat (by omega), if_neg (by omega), if_neg (by omega), if_neg (by omega)]
  by_cases hlow : n = 0xE0
  · subst hlow
    rfl
  · by_cases hhigh : n = 0xED
    · subst hhigh
      rfl
    · simp only [hlow, hhigh, hn.2, if_false, if_true]
      rfl

/-- The row of the leads of four bytes. -/
theorem lead?_four {n : Nat} (hn : 0xF0 ≤ n ∧ n < 0xF5) :
    lead? (UInt8.ofNat n) = some ⟨3, UInt8.ofNat (if n = 0xF0 then 0x90 else 0x80),
      UInt8.ofNat (if n = 0xF4 then 0x8F else 0xBF), n - 0xF0⟩ := by
  rw [lead?_ofNat (by omega), if_neg (by omega), if_neg (by omega), if_neg (by omega),
    if_neg (by omega), if_neg (by omega), if_neg (by omega)]
  by_cases hlow : n = 0xF0
  · subst hlow
    rfl
  · by_cases hhigh : n = 0xF4
    · subst hhigh
      rfl
    · simp only [hlow, hhigh, if_false, if_pos (show n < 0xF4 by omega)]
      rfl

theorem readTail_ofNat {owed bits n : Nat} {rest : Bytes} (low high : Nat) (hn : n < 256)
    (hlow : low < 256) (hhigh : high < 256) (hle : low ≤ n) (hge : n ≤ high) :
    readTail (owed + 1) (UInt8.ofNat low) (UInt8.ofNat high) bits (UInt8.ofNat n :: rest) =
      readTail owed 0x80 0xBF (bits * 64 + (n - 0x80)) rest := by
  have hsize : ∀ m < 256, (UInt8.ofNat m).toNat = m := fun m hm => by
    simp only [UInt8.toNat_ofNat']
    exact Nat.mod_eq_of_lt hm
  have hrange : UInt8.ofNat low ≤ UInt8.ofNat n ∧ UInt8.ofNat n ≤ UInt8.ofNat high := by
    simp only [UInt8.le_iff_toNat_le, hsize n hn, hsize low hlow, hsize high hhigh]
    exact ⟨hle, hge⟩
  rw [readTail, if_pos hrange, hsize n hn]

/-- A character is read only from a next byte in range. -/
theorem exists_of_readTail {owed bits : Nat} {bytes rest : Bytes} {c : Char} (low high : Nat)
    (hlow : low < 256) (hhigh : high < 256)
    (h : readTail (owed + 1) (UInt8.ofNat low) (UInt8.ofNat high) bits bytes = .char c rest) :
    ∃ n tail, bytes = UInt8.ofNat n :: tail ∧ low ≤ n ∧ n ≤ high ∧
      readTail owed 0x80 0xBF (bits * 64 + (n - 0x80)) tail = .char c rest := by
  cases bytes with
  | nil => cases h
  | cons b tail =>
    by_cases hrange : UInt8.ofNat low ≤ b ∧ b ≤ UInt8.ofNat high
    · rw [readTail, if_pos hrange] at h
      simp only [UInt8.le_iff_toNat_le, UInt8.toNat_ofNat', Nat.mod_eq_of_lt hlow,
        Nat.mod_eq_of_lt hhigh] at hrange
      exact ⟨b.toNat, tail, by rw [UInt8.ofNat_toNat], hrange.1, hrange.2, h⟩
    · rw [readTail, if_neg hrange] at h
      cases h

/-- **The forms of a character**: the bytes that spell a number, by their values. The bounds of the
second byte leave out longer forms of smaller numbers, surrogates, and what lies above U+10FFFF. -/
inductive Spells : Bytes → Nat → Prop where
  /-- one byte -/
  | one {n : Nat} (hn : n < 0x80) : Spells [UInt8.ofNat n] n
  /-- two bytes -/
  | two {n m : Nat} (hn : 0xC2 ≤ n ∧ n < 0xE0) (hm : 0x80 ≤ m ∧ m < 0xC0) :
      Spells [UInt8.ofNat n, UInt8.ofNat m] ((n - 0xC0) * 64 + (m - 0x80))
  /-- three bytes -/
  | three {n m k : Nat} (hn : 0xE0 ≤ n ∧ n < 0xF0) (hm : 0x80 ≤ m ∧ m < 0xC0)
      (hlow : n = 0xE0 → 0xA0 ≤ m) (hhigh : n = 0xED → m < 0xA0) (hk : 0x80 ≤ k ∧ k < 0xC0) :
      Spells [UInt8.ofNat n, UInt8.ofNat m, UInt8.ofNat k]
        (((n - 0xE0) * 64 + (m - 0x80)) * 64 + (k - 0x80))
  /-- four bytes -/
  | four {n m k l : Nat} (hn : 0xF0 ≤ n ∧ n < 0xF5) (hm : 0x80 ≤ m ∧ m < 0xC0)
      (hlow : n = 0xF0 → 0x90 ≤ m) (hhigh : n = 0xF4 → m < 0x90) (hk : 0x80 ≤ k ∧ k < 0xC0)
      (hl : 0x80 ≤ l ∧ l < 0xC0) :
      Spells [UInt8.ofNat n, UInt8.ofNat m, UInt8.ofNat k, UInt8.ofNat l]
        ((((n - 0xF0) * 64 + (m - 0x80)) * 64 + (k - 0x80)) * 64 + (l - 0x80))

namespace Spells

theorem isValidChar {bytes : Bytes} {v : Nat} (h : Spells bytes v) : v.isValidChar := by
  cases h with
  | one hn => exact .inl (by omega)
  | two hn hm => exact .inl (by omega)
  | @three n m k hn hm hlow hhigh hk =>
    by_cases hrow : n < 0xED ∨ n = 0xED
    · exact .inl (by omega)
    · exact .inr (by omega)
  | four hn hm hlow hhigh hk hl => exact .inr (by omega)

/-- Every form is read as its character. -/
theorem read_append {bytes : Bytes} {v : Nat} (h : Spells bytes v) (rest : Bytes) :
    read (bytes ++ rest) = .char (Char.ofNat v) rest := by
  cases h with
  | one hn =>
    rw [List.cons_append, List.nil_append, read, lead?_ofNat (by omega), if_pos hn]
    rfl
  | @two n m hn hm =>
    rw [List.cons_append, List.cons_append, List.nil_append, read, lead?_ofNat (by omega),
      if_neg (by omega), if_neg (by omega), if_pos hn.2]
    exact readTail_ofNat 0x80 0xBF (by omega) (by omega) (by omega) (by omega) (by omega)
  | @three n m k hn hm hlow hhigh hk =>
    simp only [List.cons_append, List.nil_append, read, lead?_three hn]
    rw [readTail_ofNat _ _ (by omega) (by split <;> omega) (by split <;> omega) (by split <;> omega)
      (by split <;> omega)]
    exact readTail_ofNat 0x80 0xBF (by omega) (by omega) (by omega) (by omega) (by omega)
  | @four n m k l hn hm hlow hhigh hk hl =>
    simp only [List.cons_append, List.nil_append, read, lead?_four hn]
    rw [readTail_ofNat _ _ (by omega) (by split <;> omega) (by split <;> omega) (by split <;> omega)
      (by split <;> omega)]
    refine (readTail_ofNat 0x80 0xBF (by omega) (by omega) (by omega) (by omega) (by omega)).trans ?_
    exact readTail_ofNat 0x80 0xBF (by omega) (by omega) (by omega) (by omega) (by omega)

/-- The bytes that are written for a character are one of its forms. -/
theorem encodeChar (c : Char) : Spells (encodeChar c) c.toNat := by
  have hvalid : c.toNat < 0xD800 ∨ 0xDFFF < c.toNat ∧ c.toNat < 0x110000 := c.valid
  have hval : c.val.toNat = c.toNat := rfl
  simp only [Utf8.encodeChar, String.utf8EncodeChar, hval]
  generalize c.toNat = v at hvalid
  -- one case for each length; the bounds of the second byte come from the bounds of the number
  split
  · exact .one (by omega)
  · split
    · have htwo := two (n := v / 64 % 32 + 0xC0) (m := v % 64 + 0x80) (by omega) (by omega)
      rwa [show (v / 64 % 32 + 0xC0 - 0xC0) * 64 + (v % 64 + 0x80 - 0x80) = v by omega] at htwo
    · split
      · have hthree := three (n := v / 4096 % 16 + 0xE0) (m := v / 64 % 64 + 0x80)
          (k := v % 64 + 0x80) (by omega) (by omega) (by omega) (by omega) (by omega)
        rwa [show ((v / 4096 % 16 + 0xE0 - 0xE0) * 64 + (v / 64 % 64 + 0x80 - 0x80)) * 64 +
          (v % 64 + 0x80 - 0x80) = v by omega] at hthree
      · have hfour := four (n := v / 262144 % 8 + 0xF0) (m := v / 4096 % 64 + 0x80)
          (k := v / 64 % 64 + 0x80) (l := v % 64 + 0x80) (by omega) (by omega) (by omega) (by omega)
          (by omega) (by omega)
        rwa [show (((v / 262144 % 8 + 0xF0 - 0xF0) * 64 + (v / 4096 % 64 + 0x80 - 0x80)) * 64 +
          (v / 64 % 64 + 0x80 - 0x80)) * 64 + (v % 64 + 0x80 - 0x80) = v by omega] at hfour

/-- A number has one form. -/
theorem unique {bytes bytes' : Bytes} {v v' : Nat} (h : Spells bytes v) (h' : Spells bytes' v')
    (heq : v = v') : bytes = bytes' := by
  -- forms of different lengths spell numbers of different size
  cases h with
  | one hn =>
    cases h' with
    | one hn' => rw [heq]
    | two hn' hm' => omega
    | three hn' hm' hlow' hhigh' hk' => omega
    | four hn' hm' hlow' hhigh' hk' hl' => omega
  | @two n m hn hm =>
    cases h' with
    | one hn' => omega
    | @two n' m' hn' hm' =>
      obtain ⟨rfl, rfl⟩ : n = n' ∧ m = m' := by omega
      rfl
    | three hn' hm' hlow' hhigh' hk' => omega
    | four hn' hm' hlow' hhigh' hk' hl' => omega
  | @three n m k hn hm hlow hhigh hk =>
    cases h' with
    | one hn' => omega
    | two hn' hm' => omega
    | @three n' m' k' hn' hm' hlow' hhigh' hk' =>
      obtain ⟨rfl, rfl, rfl⟩ : n = n' ∧ m = m' ∧ k = k' := by omega
      rfl
    | four hn' hm' hlow' hhigh' hk' hl' => omega
  | @four n m k l hn hm hlow hhigh hk hl =>
    cases h' with
    | one hn' => omega
    | two hn' hm' => omega
    | three hn' hm' hlow' hhigh' hk' => omega
    | @four n' m' k' l' hn' hm' hlow' hhigh' hk' hl' =>
      obtain ⟨rfl, rfl, rfl, rfl⟩ : n = n' ∧ m = m' ∧ k = k' ∧ l = l' := by omega
      rfl

/-- A character is read only from one of its forms. -/
theorem of_read {bytes rest : Bytes} {c : Char} (h : read bytes = .char c rest) :
    ∃ head v, bytes = head ++ rest ∧ Spells head v ∧ c = Char.ofNat v := by
  cases bytes with
  | nil => cases h
  | cons b tail =>
    have hb : b = UInt8.ofNat b.toNat := UInt8.ofNat_toNat.symm
    have hsize : b.toNat < 256 := b.toNat_lt
    generalize b.toNat = n at hb hsize
    subst hb
    -- one row of the table of leads after another
    by_cases hone : n < 0x80
    · rw [read, lead?_ofNat hsize, if_pos hone] at h
      obtain ⟨rfl, rfl⟩ := Reading.char.inj h
      exact ⟨[UInt8.ofNat n], n, rfl, .one hone, rfl⟩
    · by_cases hnone : n < 0xC2
      · rw [read, lead?_ofNat hsize, if_neg hone, if_pos hnone] at h
        cases h
      · by_cases htwo : n < 0xE0
        · rw [read, lead?_ofNat hsize, if_neg hone, if_neg hnone, if_pos htwo] at h
          obtain ⟨m, tail, rfl, hm, hm', hlast⟩ :=
            exists_of_readTail 0x80 0xBF (by omega) (by omega) h
          obtain ⟨rfl, rfl⟩ := Reading.char.inj hlast
          exact ⟨_, _, rfl, .two (by omega) (by omega), rfl⟩
        · by_cases hthree : n < 0xF0
          · rw [read, lead?_three (by omega)] at h
            obtain ⟨m, tail, rfl, hm, hm', h⟩ :=
              exists_of_readTail _ _ (by split <;> omega) (by split <;> omega) h
            obtain ⟨k, tail, rfl, hk, hk', hlast⟩ :=
              exists_of_readTail 0x80 0xBF (by omega) (by omega) h
            obtain ⟨rfl, rfl⟩ := Reading.char.inj hlast
            refine ⟨_, _, rfl, .three (by omega) ?_ ?_ ?_ (by omega), rfl⟩
            · split at hm <;> split at hm' <;> omega
            · intro hlow
              rwa [if_pos hlow] at hm
            · intro hhigh
              rw [if_pos hhigh] at hm'
              omega
          · by_cases hfour : n < 0xF5
            · rw [read, lead?_four (by omega)] at h
              obtain ⟨m, tail, rfl, hm, hm', h⟩ :=
                exists_of_readTail _ _ (by split <;> omega) (by split <;> omega) h
              obtain ⟨k, tail, rfl, hk, hk', h⟩ := exists_of_readTail 0x80 0xBF (by omega) (by omega) h
              obtain ⟨l, tail, rfl, hl, hl', hlast⟩ :=
                exists_of_readTail 0x80 0xBF (by omega) (by omega) h
              obtain ⟨rfl, rfl⟩ := Reading.char.inj hlast
              refine ⟨_, _, rfl, .four (by omega) ?_ ?_ ?_ (by omega) (by omega), rfl⟩
              · split at hm <;> split at hm' <;> omega
              · intro hlow
                rwa [if_pos hlow] at hm
              · intro hhigh
                rw [if_pos hhigh] at hm'
                omega
            · rw [read, lead?_ofNat hsize, if_neg hone, if_neg hnone, if_neg htwo, if_neg (by omega),
                if_neg (by omega), if_neg hthree, if_neg (by omega), if_neg (by omega),
                if_neg (by omega)] at h
              cases h

end Spells

/-- **A character is read exactly where it is written.** -/
theorem read_eq_char_iff {bytes rest : Bytes} {c : Char} :
    read bytes = .char c rest ↔ bytes = encodeChar c ++ rest := by
  constructor
  · intro h
    obtain ⟨head, v, rfl, hspells, rfl⟩ := Spells.of_read h
    have hv : (Char.ofNat v).toNat = v := by
      rw [Char.ofNat, dif_pos hspells.isValidChar]
      rfl
    rw [hspells.unique (Spells.encodeChar (Char.ofNat v)) hv.symm]
  · rintro rfl
    rw [(Spells.encodeChar c).read_append, Char.ofNat_toNat]

/-- No form is the beginning of another one. -/
theorem encodeChar_append_inj {c d : Char} {rest rest' : Bytes} :
    encodeChar c ++ rest = encodeChar d ++ rest' ↔ c = d ∧ rest = rest' := by
  constructor
  · intro h
    have hread := read_eq_char_iff.mpr h
    rw [read_eq_char_iff.mpr rfl] at hread
    exact Reading.char.inj hread
  · rintro ⟨rfl, rfl⟩
    rfl

/-! ## Whole texts -/

theorem readTail_ne_done (owed : Nat) (low high : UInt8) (bits : Nat) (bytes : Bytes) :
    readTail owed low high bits bytes ≠ .done := by
  induction owed generalizing low high bits bytes with
  | zero => simp [readTail]
  | succ owed ih =>
    cases bytes with
    | nil => simp [readTail]
    | cons b rest =>
      rw [readTail]
      split
      · exact ih _ _ _ _
      · simp

theorem read_eq_done_iff {bytes : Bytes} : read bytes = .done ↔ bytes = [] := by
  constructor
  · intro h
    cases bytes with
    | nil => rfl
    | cons b rest =>
      rw [read] at h
      split at h
      · cases h
      · exact absurd h (readTail_ne_done _ _ _ _ _)
  · rintro rfl
    rfl

@[simp]
theorem encodeChar_ne_nil (c : Char) : encodeChar c ≠ [] := by
  rw [← List.length_pos_iff, length_encodeChar]
  exact c.utf8Size_pos

theorem decodeFrom_eq_ok_iff {offset : Nat} {bytes : Bytes} {chars : List Char} :
    decodeFrom offset bytes = .ok chars ↔ bytes = encode chars := by
  fun_induction decodeFrom offset bytes generalizing chars with
  | case1 offset bytes hread =>
    obtain rfl := read_eq_done_iff.mp hread
    cases chars with
    | nil => simp
    | cons c chars => simp
  | case2 offset bytes rest hread =>
    cases chars with
    | nil =>
      simp only [reduceCtorEq, encode_nil, false_iff]
      rintro rfl
      cases hread
    | cons c chars =>
      simp only [reduceCtorEq, false_iff]
      intro hbytes
      rw [read_eq_char_iff.mpr hbytes] at hread
      cases hread
  | case3 offset bytes c rest hread hlt ih =>
    obtain rfl := read_eq_char_iff.mp hread
    cases chars with
    | nil =>
      rcases decodeFrom (offset + c.utf8Size) rest with error | found
      · simp [Except.map]
      · simp [Except.map]
    | cons d chars =>
      rw [encode_cons, encodeChar_append_inj, ← ih]
      rcases decodeFrom (offset + c.utf8Size) rest with error | found
      · simp [Except.map]
      · simp [Except.map]

/-- **Bytes decode exactly when they are the encoding of a text**, and then to that text. -/
theorem decode_eq_ok_iff {bytes : Bytes} {chars : List Char} :
    decode bytes = .ok chars ↔ bytes = encode chars :=
  decodeFrom_eq_ok_iff

/-- Of well-formed bytes nothing is left out. -/
theorem decodeLossy_encode (chars : List Char) : decodeLossy (encode chars) = chars := by
  induction chars with
  | nil =>
    rw [decodeLossy]
    rfl
  | cons c chars ih =>
    have hchar := read_eq_char_iff.mpr (encode_cons c chars)
    rw [decodeLossy]
    split
    · rename_i hread
      rw [hchar] at hread
      cases hread
    · rename_i hread
      rw [hchar] at hread
      cases hread
    · rename_i hread
      rw [hchar] at hread
      obtain ⟨rfl, rfl⟩ := Reading.char.inj hread
      rw [ih]

/-- What follows a whole number of characters is a whole number of characters. -/
theorem exists_eq_append_of_encode_eq {chars before : List Char} {rest : Bytes}
    (h : encode chars = encode before ++ rest) :
    ∃ after, chars = before ++ after ∧ rest = encode after := by
  induction before generalizing chars with
  | nil => exact ⟨chars, rfl, h.symm⟩
  | cons c before ih =>
    cases chars with
    | nil => simp at h
    | cons d chars =>
      rw [encode_cons, encode_cons, List.append_assoc, encodeChar_append_inj] at h
      obtain ⟨rfl, hrest⟩ := h
      obtain ⟨after, rfl, hafter⟩ := ih hrest
      exact ⟨after, rfl, hafter⟩

/-! ## Boundaries of characters -/

/-- A whole number of characters stands before this offset of a source. -/
def Boundary (source : Bytes) (offset : Nat) : Prop :=
  offset ≤ source.length ∧ ∃ before, source.take offset = encode before

instance (source : Bytes) (offset : Nat) : Decidable (Boundary source offset) :=
  match h : decode (source.take offset) with
  | .ok before =>
    decidable_of_iff (offset ≤ source.length)
      ⟨fun hle => ⟨hle, before, decode_eq_ok_iff.mp h⟩, fun hboundary => hboundary.1⟩
  | .error _ => .isFalse fun ⟨_, before, hbefore⟩ => by
    rw [decode_eq_ok_iff.mpr hbefore] at h
    cases h

theorem boundary_zero (source : Bytes) : Boundary source 0 :=
  ⟨Nat.zero_le _, [], rfl⟩

/-- One character after a boundary stands another one. -/
theorem Boundary.append {source rest : Bytes} {offset : Nat} (h : Boundary source offset) (c : Char)
    (hrest : source.drop offset = encodeChar c ++ rest) :
    Boundary source (offset + (encodeChar c).length) := by
  obtain ⟨hle, before, hbefore⟩ := h
  have hlength := congrArg List.length hrest
  rw [List.length_drop, List.length_append] at hlength
  refine ⟨by omega, before ++ [c], ?_⟩
  rw [List.take_add, hbefore, hrest, List.take_left, encode_append, encode_cons, encode_nil,
    List.append_nil]

/-- Between two boundaries stands a text. -/
theorem Boundary.exists_slice {chars : List Char} {start stop : Nat}
    (hstart : Boundary (encode chars) start) (hstop : Boundary (encode chars) stop)
    (hle : start ≤ stop) : ∃ inner, ((encode chars).take stop).drop start = encode inner := by
  obtain ⟨hin, before, hbefore⟩ := hstart
  obtain ⟨-, upto, hupto⟩ := hstop
  -- the characters before the start are the first ones before the stop
  have hsplit : encode upto = encode before ++ (encode upto).drop start := by
    rw [← hbefore, ← hupto]
    have htake : (encode chars).take start = ((encode chars).take stop).take start := by
      rw [List.take_take, Nat.min_eq_left hle]
    rw [htake, List.take_append_drop]
  obtain ⟨inner, -, hinner⟩ := exists_eq_append_of_encode_eq hsplit
  exact ⟨inner, by rw [hupto, hinner]⟩

end LoggerLint.Utf8
