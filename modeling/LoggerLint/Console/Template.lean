import LoggerLint.Text.CodePoint
import LoggerLint.Text.Digit

/-!
# Cooked template text

Between its backticks a template literal spells a text with escapes. `cook` gives the text that the
spelling stands for, or `none` when an escape is malformed:

* a carriage return, alone or before a line feed, is one line feed;
* a backslash before a line end is a line continuation and stands for nothing;
* `\x41`, `\u0041` and `\u{41}` name a code point, `\n` and its like a control character, and a
  backslash before any other character stands for that character;
* `\x` and `\u` without their digits, `\1` to `\9`, and `\0` before a digit are malformed.

A backslash with nothing behind it stands for itself.
-/

namespace LoggerLint.Template

/-! ## One escape -/

/-- The first `count` characters, if there are so many and all are hexadecimal digits, and the rest. -/
def hexRun? : (count : Nat) → List Char → Option (List Char × List Char)
  | 0, rest => some ([], rest)
  | _ + 1, [] => none
  | count + 1, c :: rest =>
    if Digit.isHex c then (hexRun? count rest).map fun (run, rest) => (c :: run, rest) else none

/-- The hexadecimal digits up to a closing brace, at least one of them, and what follows it. -/
def bracedHex? (cs : List Char) : Option (List Char × List Char) :=
  match cs.takeWhile Digit.isHex, cs.dropWhile Digit.isHex with
  | [], _ => none
  | run, '}' :: rest => some (run, rest)
  | _, _ => none

/-- Does a backslash before this character, with nothing that completes it, spell no character? -/
def isMalformedStart (c : Char) : Bool :=
  c = 'x' || c = 'u' || ('1' ≤ c && c ≤ '9')

/-- Does a backslash before this line end continue the line? -/
def isLineEnd (c : Char) : Bool :=
  c = '\n' || c = '\r' || c = '\u2028' || c = '\u2029'

/-- The character that a backslash before `c` stands for. -/
def simpleEscape (c : Char) : Char :=
  match c with
  | 'n' => '\n'
  | 't' => '\t'
  | 'r' => '\r'
  | 'b' => '\x08'
  | 'f' => '\x0c'
  | 'v' => '\x0b'
  | '0' => '\x00'
  | c => c

/-- What a backslash before `c` stands for when no longer escape begins there; `rest` follows. -/
def shortEscape? (c : Char) (rest : List Char) : Option Text :=
  if isLineEnd c then some []
  else if isMalformedStart c then none
  else if c = '0' && rest.head?.any Digit.isDigit then none
  else some [.scalar (simpleEscape c)]

/-- The escape at the head of what follows a backslash: its value, and what comes after it. -/
def escape? (cs : List Char) : Option (Text × List Char) :=
  match cs with
  | [] => some ([.scalar '\\'], [])
  | '\r' :: '\n' :: rest => some ([], rest)
  | c :: rest =>
    let short := (shortEscape? c rest).map (·, rest)
    if c = 'x' then
      match hexRun? 2 rest with
      | some (run, rest) => (CodePoint.ofNat? (Digit.ofHex run)).map fun p => ([p], rest)
      | none => short
    else if c = 'u' then
      match rest with
      | '{' :: braced =>
        match bracedHex? braced with
        | some (run, rest) => (CodePoint.ofNat? (Digit.ofHex run)).map fun p => ([p], rest)
        | none => short
      | _ =>
        match hexRun? 4 rest with
        | some (run, rest) => (CodePoint.ofNat? (Digit.ofHex run)).map fun p => ([p], rest)
        | none => short
    else
      short

/-! ## Lengths -/

theorem length_hexRun? {count : Nat} {cs run rest : List Char}
    (h : hexRun? count cs = some (run, rest)) : rest.length ≤ cs.length := by
  induction count generalizing cs run rest with
  | zero => simp_all [hexRun?]
  | succ count ih =>
    cases cs with
    | nil => simp [hexRun?] at h
    | cons c cs =>
      simp only [hexRun?] at h
      split at h
      · obtain ⟨⟨run', rest'⟩, h', heq⟩ := Option.map_eq_some_iff.mp h
        have := ih h'
        simp only [Prod.mk.injEq] at heq
        simp only [List.length_cons, ← heq.2]
        omega
      · simp at h

theorem length_bracedHex? {cs run rest : List Char}
    (h : bracedHex? cs = some (run, rest)) : rest.length ≤ cs.length := by
  have hspan := congrArg List.length (List.takeWhile_append_dropWhile (p := Digit.isHex) (l := cs))
  unfold bracedHex? at h
  split at h
  · simp at h
  · rename_i hdrop _
    simp only [Option.some.injEq, Prod.mk.injEq] at h
    rw [hdrop, List.length_append, List.length_cons, h.2] at hspan
    omega
  · simp at h

/-- An escape stands for no more than it is written with. -/
theorem length_escape?_cons {c : Char} {rest rest' : List Char} {value : Text}
    (h : escape? (c :: rest) = some (value, rest')) : value.length + rest'.length ≤ rest.length + 1 := by
  have short : (shortEscape? c rest).map (fun v => (v, rest)) = some (value, rest') →
      value.length + rest'.length ≤ rest.length + 1 := by
    intro h
    obtain ⟨v, hv, heq⟩ := Option.map_eq_some_iff.mp h
    obtain ⟨rfl, rfl⟩ := Prod.mk.inj heq
    unfold shortEscape? at hv
    split at hv
    · obtain rfl := Option.some.inj hv
      simp
    · split at hv
      · cases hv
      · split at hv
        · cases hv
        · obtain rfl := Option.some.inj hv
          simp [Nat.add_comm]
  have coded : ∀ {n : Nat} {tail : List Char}, tail.length ≤ rest.length →
      (CodePoint.ofNat? n).map (fun p => ([p], tail)) = some (value, rest') →
      value.length + rest'.length ≤ rest.length + 1 := by
    intro n tail htail h
    obtain ⟨p, -, heq⟩ := Option.map_eq_some_iff.mp h
    obtain ⟨rfl, rfl⟩ := Prod.mk.inj heq
    simp only [List.length_singleton]
    omega
  unfold escape? at h
  split at h
  · rename_i hnil
    cases hnil
  · rename_i hcons
    obtain ⟨-, rfl⟩ := List.cons.inj hcons
    obtain ⟨rfl, rfl⟩ := Prod.mk.inj (Option.some.inj h)
    simp
    omega
  · rename_i hcons
    obtain ⟨rfl, rfl⟩ := List.cons.inj hcons
    simp only at h
    split at h
    · split at h
      · rename_i hrun
        exact coded (length_hexRun? hrun) h
      · exact short h
    · split at h
      · split at h
        · split at h
          · rename_i hrun
            exact coded (Nat.le_succ_of_le (length_bracedHex? hrun)) h
          · exact short h
        · split at h
          · rename_i hrun
            exact coded (length_hexRun? hrun) h
          · exact short h
      · exact short h

/-- An escape is followed by no more than what followed its backslash. -/
theorem length_escape? {cs rest : List Char} {value : Text}
    (h : escape? cs = some (value, rest)) : rest.length ≤ cs.length := by
  cases cs with
  | nil =>
    obtain ⟨-, rfl⟩ := Prod.mk.inj (Option.some.inj h)
    exact Nat.le_refl _
  | cons c cs =>
    have := length_escape?_cons h
    rw [List.length_cons]
    omega

/-! ## The whole text -/

/-- The text that a template's raw characters stand for, unless an escape is malformed. -/
def cook (raw : List Char) : Option Text :=
  match raw with
  | [] => some []
  | '\r' :: '\n' :: rest => (cook rest).map (.scalar '\n' :: ·)
  | c :: rest =>
    if c = '\\' then
      match h : escape? rest with
      | none => none
      | some (value, rest') =>
        have := length_escape? h
        (cook rest').map (value ++ ·)
    else if c = '\r' then
      (cook rest).map (.scalar '\n' :: ·)
    else
      (cook rest).map (.scalar c :: ·)
termination_by raw.length

end LoggerLint.Template
