import LoggerLint.Proofs.Console.Template
import Mathlib.Data.List.TakeWhile

/-!
# The grammar of template text

The characters of a template literal are read from left to right, element by element. An `Element` is a
character, a line end, or a backslash with what belongs to it; it has a `spelling` and a `value`. Where two
elements stand next to each other the first must not run on into the second: a carriage return before a line
feed, bare or behind a backslash, is one line end with it, and `\0` is no escape before a digit
(`Element.MayPrecede`, `Separated`). What can follow a backslash and is no escape is `Malformed`.

`cook_follows_grammar` says that cooking is this grammar. A text spelled by elements is cooked to their values;
a text is not cooked exactly when a malformed escape is met behind elements; and any other text that does not
end in the middle of an escape is spelled by elements. The proof takes one element at a time: `exists_next`
finds the one at the head of a text, and `cook_spelling_append` cooks it.
-/

namespace LoggerLint.Template

/-! ## Code points by number -/

theorem ofNat?_toNat (point : CodePoint) : CodePoint.ofNat? point.toNat = some point := by
  cases point with
  | scalar c =>
    have hvalid : Nat.isValidChar c.toNat := c.valid
    have hchar : Char.ofNatAux c.toNat hvalid = c := Char.ext (UInt32.toNat.inj rfl)
    rw [CodePoint.toNat, CodePoint.ofNat?, dif_pos hvalid, hchar]
  | surrogate i =>
    have hi := i.isLt
    have hinvalid : ¬ Nat.isValidChar (0xD800 + i.val) := by
      simp only [Nat.isValidChar]
      omega
    have hrange : 0xD800 ≤ 0xD800 + i.val ∧ 0xD800 + i.val < 0xE000 := by omega
    simp [CodePoint.ofNat?, CodePoint.toNat, hinvalid, hrange]

/-- Every number up to the last code point is one of a code point. -/
theorem exists_toNat_eq {n : Nat} (h : n ≤ 0x10FFFF) : ∃ point : CodePoint, point.toNat = n := by
  by_cases hvalid : Nat.isValidChar n
  · exact ⟨.scalar (Char.ofNatAux n hvalid), rfl⟩
  · simp only [Nat.isValidChar] at hvalid
    exact ⟨.surrogate ⟨n - 0xD800, by omega⟩, by simp only [CodePoint.toNat]; omega⟩

theorem ofNat?_eq_none {n : Nat} (h : 0x10FFFF < n) : CodePoint.ofNat? n = none := by
  have hinvalid : ¬ Nat.isValidChar n := by
    simp only [Nat.isValidChar]
    omega
  have hrange : ¬ (0xD800 ≤ n ∧ n < 0xE000) := by omega
  rw [CodePoint.ofNat?, dif_neg hinvalid, dif_neg hrange]

/-! ## Escapes by number -/

/-- The ways to spell a code point by its number. -/
inductive Coding where
  /-- an `x` and two digits -/
  | two
  /-- a `u` and four digits -/
  | four
  /-- a `u` and digits in braces -/
  | braced

/-- A code point spelled by its number, behind the backslash. The number may be too great. -/
structure Coded where
  /-- how it is spelled -/
  coding : Coding
  /-- the digits of the number -/
  digits : List Char
  /-- they are hexadecimal -/
  hex : ∀ c ∈ digits, Digit.isHex c = true
  /-- and as many as there should be -/
  count : match coding with
    | .two => digits.length = 2
    | .four => digits.length = 4
    | .braced => digits ≠ []

namespace Coded

/-- The number that is spelled. -/
def number (code : Coded) : Nat :=
  Digit.ofHex code.digits

/-- What stands behind the backslash. -/
def spelling (code : Coded) : List Char :=
  match code.coding with
  | .two => 'x' :: code.digits
  | .four => 'u' :: code.digits
  | .braced => 'u' :: '\x7b' :: (code.digits ++ ['\x7d'])

theorem head?_spelling (code : Coded) :
    code.spelling.head? = some 'x' ∨ code.spelling.head? = some 'u' := by
  rw [spelling]
  cases code.coding with
  | two => exact .inl rfl
  | four => exact .inr rfl
  | braced => exact .inr rfl

end Coded

/-! ## Elements -/

/-- The line ends that a backslash takes away. -/
def lineEnds : List (List Char) :=
  [['\n'], ['\r'], ['\r', '\n'], ['\u2028'], ['\u2029']]

/-- The letters that name a character behind a backslash, with the characters they name. -/
def controls : List (Char × Char) :=
  [('n', '\n'), ('t', '\t'), ('r', '\r'), ('b', '\x08'), ('f', '\x0c'), ('v', '\x0b'), ('0', '\x00')]

/-- A character that stands for itself behind a backslash. -/
structure Verbatim (c : Char) : Prop where
  /-- it is no line end -/
  lineEnd : [c] ∉ lineEnds
  /-- it names no other character -/
  control : c ∉ controls.map Prod.fst
  /-- it begins no number of a code point -/
  code : c ≠ 'x' ∧ c ≠ 'u'
  /-- it is none of the digits from 1 to 9 -/
  digit : ¬ ('1' ≤ c ∧ c ≤ '9')

/-- An element of a template's text. -/
inductive Element where
  /-- a character that stands for itself -/
  | plain (c : Char) (hslash : c ≠ '\\') (hreturn : c ≠ '\r')
  /-- a carriage return, alone or with a line feed -/
  | lineEnd (withFeed : Bool)
  /-- a backslash before a line end -/
  | continuation (mark : List Char) (hmark : mark ∈ lineEnds)
  /-- a backslash before a letter that names a character -/
  | control (letter point : Char) (hletter : (letter, point) ∈ controls)
  /-- a backslash before the number of a code point -/
  | coded (code : Coded) (point : CodePoint) (hpoint : point.toNat = code.number)
  /-- a backslash before a character that stands for itself -/
  | verbatim (c : Char) (hc : Verbatim c)

namespace Element

/-- The characters of an element. -/
def spelling : Element → List Char
  | .plain c _ _ => [c]
  | .lineEnd withFeed => if withFeed then ['\r', '\n'] else ['\r']
  | .continuation mark _ => '\\' :: mark
  | .control letter _ _ => ['\\', letter]
  | .coded code _ _ => '\\' :: code.spelling
  | .verbatim c _ => ['\\', c]

/-- What an element stands for. -/
def value : Element → Text
  | .plain c _ _ => [.scalar c]
  | .lineEnd _ => [.scalar '\n']
  | .continuation _ _ => []
  | .control _ point _ => [.scalar point]
  | .coded _ point _ => [point]
  | .verbatim c _ => [.scalar c]

/-- The element does not run on into the character behind it, if there is one. -/
def MayPrecede : Element → Option Char → Prop
  | .lineEnd false, next => next ≠ some '\n'
  | .continuation mark _, next => mark = ['\r'] → next ≠ some '\n'
  | .control letter _ _, next => letter = '0' → next.any Digit.isDigit = false
  | _, _ => True

/-- Every element may stand at the end, or before an escape. -/
theorem mayPrecede_slash (element : Element) {next : Option Char}
    (h : next = none ∨ next = some '\\') : element.MayPrecede next := by
  have hfeed : next ≠ some '\n' := by
    rcases h with rfl | rfl
    · nofun
    · decide
  have hdigit : next.any Digit.isDigit = false := by
    rcases h with rfl | rfl
    · rfl
    · decide
  match element with
  | .plain _ _ _ => trivial
  | .lineEnd true => trivial
  | .lineEnd false => exact hfeed
  | .continuation _ _ => exact fun _ => hfeed
  | .control _ _ _ => exact fun _ => hdigit
  | .coded _ _ _ => trivial
  | .verbatim _ _ => trivial

theorem spelling_ne_nil (element : Element) : element.spelling ≠ [] := by
  match element with
  | .plain _ _ _ => exact List.cons_ne_nil _ _
  | .lineEnd true => exact List.cons_ne_nil _ _
  | .lineEnd false => exact List.cons_ne_nil _ _
  | .continuation _ _ => exact List.cons_ne_nil _ _
  | .control _ _ _ => exact List.cons_ne_nil _ _
  | .coded _ _ _ => exact List.cons_ne_nil _ _
  | .verbatim _ _ => exact List.cons_ne_nil _ _

end Element

/-- The characters of some elements. -/
def spelled (elements : List Element) : List Char :=
  elements.flatMap Element.spelling

/-- What some elements stand for. -/
def meant (elements : List Element) : Text :=
  elements.flatMap Element.value

/-- No element runs on into the next one. -/
def Separated : List Element → Prop
  | [] => True
  | element :: rest => element.MayPrecede (spelled rest).head? ∧ Separated rest

/-- What can follow a backslash and is no escape. -/
inductive Malformed : List Char → Prop where
  /-- an `x` or a `u` that no number of a code point begins with -/
  | incomplete {c : Char} {rest : List Char} (hc : c = 'x' ∨ c = 'u')
      (hnone : ∀ (code : Coded) (tail : List Char), c :: rest ≠ code.spelling ++ tail) :
      Malformed (c :: rest)
  /-- a number that no code point has -/
  | beyond (code : Coded) (rest : List Char) (hnumber : 0x10FFFF < code.number) :
      Malformed (code.spelling ++ rest)
  /-- a digit from 1 to 9 -/
  | digit {c : Char} (rest : List Char) (hc : '1' ≤ c ∧ c ≤ '9') : Malformed (c :: rest)
  /-- a zero before a digit -/
  | zero {rest : List Char} (hrest : rest.head?.any Digit.isDigit = true) : Malformed ('0' :: rest)

/-- A backslash takes the next character with it. Does the last one find none? -/
def endsUnpaired : List Char → Bool
  | [] => false
  | ['\\'] => true
  | '\\' :: _ :: rest => endsUnpaired rest
  | _ :: rest => endsUnpaired rest

/-! ## Reading a number -/

/-- Hexadecimal digits are read as far as they are asked for. -/
theorem hexRun?_append {digits : List Char} (hhex : ∀ c ∈ digits, Digit.isHex c = true)
    (rest : List Char) : hexRun? digits.length (digits ++ rest) = some (digits, rest) := by
  induction digits with
  | nil => rfl
  | cons c digits ih =>
    rw [List.length_cons, List.cons_append, hexRun?, if_pos (hhex c (.head _)),
      ih fun d hd => hhex d (.tail _ hd)]
    rfl

theorem of_hexRun? {count : Nat} {cs run rest : List Char} (h : hexRun? count cs = some (run, rest)) :
    cs = run ++ rest ∧ run.length = count ∧ ∀ c ∈ run, Digit.isHex c = true := by
  induction count generalizing cs run rest with
  | zero =>
    obtain ⟨rfl, rfl⟩ := Prod.mk.inj (Option.some.inj h)
    exact ⟨rfl, rfl, nofun⟩
  | succ count ih =>
    cases cs with
    | nil => cases h
    | cons c cs =>
      rw [hexRun?] at h
      split at h
      · rename_i hc
        obtain ⟨⟨run', rest'⟩, hrun, heq⟩ := Option.map_eq_some_iff.mp h
        obtain ⟨rfl, rfl⟩ := Prod.mk.inj heq
        obtain ⟨rfl, hlength, hhex⟩ := ih hrun
        exact ⟨rfl, congrArg Nat.succ hlength, List.forall_mem_cons.mpr ⟨hc, hhex⟩⟩
      · cases h

/-- Hexadecimal digits are read up to the brace. -/
theorem bracedHex?_append {digits : List Char} (hhex : ∀ c ∈ digits, Digit.isHex c = true)
    (hne : digits ≠ []) (rest : List Char) :
    bracedHex? (digits ++ '\x7d' :: rest) = some (digits, rest) := by
  have hbrace : Digit.isHex '\x7d' = false := by decide
  have htake : (digits ++ '\x7d' :: rest).takeWhile Digit.isHex = digits := by
    rw [List.takeWhile_append_of_pos hhex, List.takeWhile_cons_of_neg (by simp [hbrace]), List.append_nil]
  have hdrop : (digits ++ '\x7d' :: rest).dropWhile Digit.isHex = '\x7d' :: rest := by
    rw [List.dropWhile_append_of_pos hhex, List.dropWhile_cons_of_neg (by simp [hbrace])]
  obtain ⟨c, digits, rfl⟩ := List.exists_cons_of_ne_nil hne
  rw [bracedHex?, htake, hdrop]
  rfl

theorem of_bracedHex? {cs run rest : List Char} (h : bracedHex? cs = some (run, rest)) :
    cs = run ++ '\x7d' :: rest ∧ run ≠ [] ∧ ∀ c ∈ run, Digit.isHex c = true := by
  have hspan := List.takeWhile_append_dropWhile (p := Digit.isHex) (l := cs)
  unfold bracedHex? at h
  split at h
  · cases h
  · rename_i hdrop hne
    obtain ⟨rfl, rfl⟩ := Prod.mk.inj (Option.some.inj h)
    rw [hdrop] at hspan
    exact ⟨hspan.symm, fun hnil => hne hnil, fun c hc => List.mem_takeWhile_imp hc⟩
  · cases h

/-! ## Reading an escape -/

theorem escape?_two (rest : List Char) : escape? ('x' :: rest) =
    match hexRun? 2 rest with
    | some (run, rest) => (CodePoint.ofNat? (Digit.ofHex run)).map fun point => ([point], rest)
    | none => none := rfl

theorem escape?_braced (rest : List Char) : escape? ('u' :: '\x7b' :: rest) =
    match bracedHex? rest with
    | some (run, rest) => (CodePoint.ofNat? (Digit.ofHex run)).map fun point => ([point], rest)
    | none => none := rfl

theorem escape?_four {rest : List Char} (hopen : rest.head? ≠ some '\x7b') : escape? ('u' :: rest) =
    match hexRun? 4 rest with
    | some (run, rest) => (CodePoint.ofNat? (Digit.ofHex run)).map fun point => ([point], rest)
    | none => none := by
  rw [escape?]
  · rfl
  · rintro _ ⟨⟩
  · rintro inner rfl
    exact hopen rfl

/-- Any other character is an escape by itself, a carriage return before a line feed apart. -/
theorem escape?_short {c : Char} (hc : c ≠ 'x' ∧ c ≠ 'u') {rest : List Char}
    (hfeed : c ≠ '\r' ∨ rest.head? ≠ some '\n') :
    escape? (c :: rest) = (shortEscape? c rest).map (·, rest) := by
  unfold escape?
  split
  · rename_i h
    cases h
  · rename_i h
    obtain ⟨rfl, rfl⟩ := List.cons.inj h
    exact hfeed.elim (absurd rfl) (absurd rfl)
  · rename_i h
    obtain ⟨rfl, rfl⟩ := List.cons.inj h
    rw [if_neg hc.1, if_neg hc.2]

/-- A number of a code point is read as it is spelled. -/
theorem escape?_coded (code : Coded) (rest : List Char) :
    escape? (code.spelling ++ rest) = (CodePoint.ofNat? code.number).map fun point => ([point], rest) := by
  obtain ⟨coding, digits, hhex, hcount⟩ := code
  cases coding with
  | two =>
    have hlength : digits.length = 2 := hcount
    have hrun := hexRun?_append hhex rest
    rw [hlength] at hrun
    change escape? ('x' :: (digits ++ rest)) = _
    rw [escape?_two, hrun]
    rfl
  | four =>
    have hlength : digits.length = 4 := hcount
    have hrun := hexRun?_append hhex rest
    rw [hlength] at hrun
    have hopen : (digits ++ rest).head? ≠ some '\x7b' := by
      obtain ⟨c, digits, rfl⟩ := List.exists_cons_of_length_pos (by omega : 0 < digits.length)
      intro hhead
      obtain rfl : c = '\x7b' := Option.some.inj hhead
      exact absurd (hhex _ (.head _)) (by decide)
    change escape? ('u' :: (digits ++ rest)) = _
    rw [escape?_four hopen, hrun]
    rfl
  | braced =>
    have hrun := bracedHex?_append hhex hcount rest
    have hspelling : Coded.spelling ⟨.braced, digits, hhex, hcount⟩ ++ rest =
        'u' :: '\x7b' :: (digits ++ '\x7d' :: rest) := by
      simp [Coded.spelling]
    rw [hspelling, escape?_braced, hrun]
    rfl

/-- An `x` or a `u` is an escape only where a number of a code point begins. -/
theorem escape?_incomplete {c : Char} {rest : List Char} (hc : c = 'x' ∨ c = 'u')
    (hnone : ∀ (code : Coded) (tail : List Char), c :: rest ≠ code.spelling ++ tail) :
    escape? (c :: rest) = none := by
  rcases hc with rfl | rfl
  · rw [escape?_two]
    rcases hrun : hexRun? 2 rest with _ | ⟨run, tail⟩
    · rfl
    · obtain ⟨rfl, hlength, hhex⟩ := of_hexRun? hrun
      exact absurd rfl (hnone ⟨.two, run, hhex, hlength⟩ tail)
  · by_cases hopen : rest.head? = some '\x7b'
    · obtain ⟨inner, rfl⟩ : ∃ inner, rest = '\x7b' :: inner := List.head?_eq_some_iff.mp hopen
      rw [escape?_braced]
      rcases hrun : bracedHex? inner with _ | ⟨run, tail⟩
      · rfl
      · obtain ⟨rfl, hne, hhex⟩ := of_bracedHex? hrun
        refine absurd ?_ (hnone ⟨.braced, run, hhex, hne⟩ tail)
        simp [Coded.spelling]
    · rw [escape?_four hopen]
      rcases hrun : hexRun? 4 rest with _ | ⟨run, tail⟩
      · rfl
      · obtain ⟨rfl, hlength, hhex⟩ := of_hexRun? hrun
        exact absurd rfl (hnone ⟨.four, run, hhex, hlength⟩ tail)

theorem isLineEnd_iff {c : Char} : isLineEnd c = true ↔ [c] ∈ lineEnds := by
  simp [isLineEnd, lineEnds, or_assoc]

/-- The digits from 1 to 9 are not among the other characters with a meaning. -/
theorem of_digit {c : Char} (hc : '1' ≤ c ∧ c ≤ '9') :
    (c ≠ 'x' ∧ c ≠ 'u') ∧ c ≠ '\r' ∧ isLineEnd c = false := by
  have hne : ∀ d : Char, '9' < d ∨ d < '1' → c ≠ d := by
    rintro d (hlt | hlt) rfl
    · exact absurd hc.2 (Char.not_le.mpr hlt)
    · exact absurd hc.1 (Char.not_le.mpr hlt)
  refine ⟨⟨hne 'x' (by decide), hne 'u' (by decide)⟩, hne '\r' (by decide), ?_⟩
  simp [isLineEnd, hne '\n' (by decide), hne '\r' (by decide), hne '\u2028' (by decide),
    hne '\u2029' (by decide)]

/-- **What is malformed is no escape.** -/
theorem escape?_malformed {rest : List Char} (h : Malformed rest) : escape? rest = none := by
  cases h with
  | incomplete hc hnone => exact escape?_incomplete hc hnone
  | beyond code tail hnumber => rw [escape?_coded, ofNat?_eq_none hnumber, Option.map_none]
  | @digit c tail hc =>
    obtain ⟨hcode, hreturn, hend⟩ := of_digit hc
    have hstart : isMalformedStart c = true := by simp [isMalformedStart, hc]
    rw [escape?_short hcode (.inl hreturn), shortEscape?, hend, hstart]
    rfl
  | @zero tail hrest =>
    have hshort : shortEscape? '0' tail = none := by
      simp [shortEscape?, isLineEnd, isMalformedStart, hrest]
    rw [escape?_short (by decide) (.inl (by decide)), hshort]
    rfl

/-! ## Cooking element by element -/

/-- A line end behind a backslash is read whole and stands for nothing. -/
theorem escape?_continuation {mark : List Char} (hmark : mark ∈ lineEnds) {rest : List Char}
    (hfeed : mark = ['\r'] → rest.head? ≠ some '\n') : escape? (mark ++ rest) = some ([], rest) := by
  have hone : ∀ {c : Char}, [c] ∈ lineEnds → c ≠ 'x' ∧ c ≠ 'u' → c ≠ '\r' ∨ rest.head? ≠ some '\n' →
      escape? (c :: rest) = some ([], rest) := by
    intro c hend hcode hfeed
    rw [escape?_short hcode hfeed, shortEscape?, isLineEnd_iff.mpr hend]
    rfl
  simp only [lineEnds, List.mem_cons, List.not_mem_nil, or_false] at hmark
  rcases hmark with rfl | rfl | rfl | rfl | rfl
  · exact hone (by decide) (by decide) (.inl (by decide))
  · exact hone (by decide) (by decide) (.inr (hfeed rfl))
  · rfl
  · exact hone (by decide) (by decide) (.inl (by decide))
  · exact hone (by decide) (by decide) (.inl (by decide))

theorem escape?_control {letter point : Char} (hletter : (letter, point) ∈ controls) {rest : List Char}
    (hzero : letter = '0' → rest.head?.any Digit.isDigit = false) :
    escape? (letter :: rest) = some ([.scalar point], rest) := by
  simp only [controls, List.mem_cons, Prod.mk.injEq, List.not_mem_nil, or_false] at hletter
  rcases hletter with ⟨rfl, rfl⟩ | ⟨rfl, rfl⟩ | ⟨rfl, rfl⟩ | ⟨rfl, rfl⟩ | ⟨rfl, rfl⟩ | ⟨rfl, rfl⟩ |
    ⟨rfl, rfl⟩
  · rfl
  · rfl
  · rfl
  · rfl
  · rfl
  · rfl
  · have hshort : shortEscape? '0' rest = some [.scalar '\x00'] := by
      simp [shortEscape?, isLineEnd, isMalformedStart, simpleEscape, hzero rfl]
    rw [escape?_short (by decide) (.inl (by decide)), hshort]
    rfl

theorem escape?_verbatim {c : Char} (hc : Verbatim c) (rest : List Char) :
    escape? (c :: rest) = some ([.scalar c], rest) := by
  have hend : isLineEnd c = false := (Bool.not_eq_true _).mp fun h => hc.lineEnd (isLineEnd_iff.mp h)
  have hreturn : c ≠ '\r' := by
    rintro rfl
    cases hend
  have hstart : isMalformedStart c = false := by
    simpa [isMalformedStart, hc.code] using not_and.mp hc.digit
  have hcontrol := hc.control
  simp only [controls, List.map_cons, List.map_nil, List.mem_cons, List.not_mem_nil, or_false, not_or]
    at hcontrol
  obtain ⟨hn, ht, hr, hb, hf, hv, hzero⟩ := hcontrol
  have hself : simpleEscape c = c := by
    unfold simpleEscape
    split
    all_goals first
      | rfl
      | contradiction
  rw [escape?_short hc.code (.inl hreturn), shortEscape?, hend, hstart]
  simp [hzero, hself]

/-- **An element is cooked to its value**, where it does not run on into what follows. -/
theorem cook_spelling_append (element : Element) {rest : List Char}
    (h : element.MayPrecede rest.head?) :
    cook (element.spelling ++ rest) = (cook rest).map (element.value ++ ·) := by
  match element, h with
  | .plain c hslash hreturn, _ => exact cook_bare hslash hreturn rest
  | .lineEnd true, _ => exact cook.eq_2 rest
  | .lineEnd false, h => exact cook_return h
  | .continuation mark hmark, h =>
    have hescape := escape?_continuation hmark h
    change cook ('\\' :: (mark ++ rest)) = _
    rw [cook_slash, hescape]
    rfl
  | .control letter point hletter, h =>
    have hescape := escape?_control hletter h
    change cook ('\\' :: letter :: rest) = _
    rw [cook_slash, hescape]
    rfl
  | .coded code point hpoint, _ =>
    have hescape := escape?_coded code rest
    rw [← hpoint, ofNat?_toNat] at hescape
    change cook ('\\' :: (code.spelling ++ rest)) = _
    rw [cook_slash, hescape]
    rfl
  | .verbatim c hc, _ =>
    have hescape := escape?_verbatim hc rest
    change cook ('\\' :: c :: rest) = _
    rw [cook_slash, hescape]
    rfl

/-- **Elements are cooked to their values**, up to a place where the text ends or an escape begins. -/
theorem cook_spelled_append {elements : List Element} (h : Separated elements) {tail : List Char}
    (htail : tail.head? = none ∨ tail.head? = some '\\') :
    cook (spelled elements ++ tail) = (cook tail).map (meant elements ++ ·) := by
  induction elements with
  | nil => simp [spelled, meant]
  | cons element rest ih =>
    obtain ⟨hnext, hrest⟩ := h
    have hnext' : element.MayPrecede (spelled rest ++ tail).head? := by
      rw [List.head?_append]
      rcases hhead : (spelled rest).head? with _ | c
      · exact element.mayPrecede_slash htail
      · rw [hhead] at hnext
        exact hnext
    have hspelled : spelled (element :: rest) ++ tail = element.spelling ++ (spelled rest ++ tail) := by
      simp [spelled]
    rw [hspelled, cook_spelling_append element hnext', ih hrest, Option.map_map]
    simp [meant, Function.comp_def]

/-! ## The element at the head of a text -/

/-- **What stands at the head of a text**: an element, a malformed escape, or a last backslash. -/
theorem exists_next {raw : List Char} (hraw : raw ≠ []) :
    raw = ['\\'] ∨ (∃ rest, raw = '\\' :: rest ∧ Malformed rest) ∨
      ∃ (element : Element) (rest : List Char), raw = element.spelling ++ rest ∧
        element.MayPrecede rest.head? := by
  obtain ⟨c, rest, rfl⟩ := List.exists_cons_of_ne_nil hraw
  by_cases hslash : c = '\\'
  · subst hslash
    rcases rest with _ | ⟨d, rest⟩
    · exact .inl rfl
    refine .inr ?_
    by_cases hcoded : ∃ (code : Coded) (tail : List Char), d :: rest = code.spelling ++ tail
    · obtain ⟨code, tail, heq⟩ := hcoded
      rw [heq]
      rcases Nat.lt_or_ge 0x10FFFF code.number with hgreat | hle
      · exact .inl ⟨_, rfl, .beyond code tail hgreat⟩
      · obtain ⟨point, hpoint⟩ := exists_toNat_eq hle
        exact .inr ⟨.coded code point hpoint, tail, rfl, trivial⟩
    by_cases hcode : d = 'x' ∨ d = 'u'
    · exact .inl ⟨_, rfl, .incomplete hcode fun code tail heq => hcoded ⟨code, tail, heq⟩⟩
    by_cases hdigit : '1' ≤ d ∧ d ≤ '9'
    · exact .inl ⟨_, rfl, .digit rest hdigit⟩
    by_cases hend : [d] ∈ lineEnds
    · by_cases hfeed : d = '\r' ∧ rest.head? = some '\n'
      · obtain ⟨rfl, hhead⟩ := hfeed
        obtain ⟨tail, rfl⟩ := List.head?_eq_some_iff.mp hhead
        exact .inr ⟨.continuation ['\r', '\n'] (by decide), tail, rfl, by nofun⟩
      · refine .inr ⟨.continuation [d] hend, rest, rfl, fun heq hhead => hfeed ⟨?_, hhead⟩⟩
        exact (List.cons.inj heq).1
    by_cases hcontrol : d ∈ controls.map Prod.fst
    · obtain ⟨⟨letter, point⟩, hletter, rfl⟩ := List.mem_map.mp hcontrol
      by_cases hzero : letter = '0' ∧ rest.head?.any Digit.isDigit = true
      · obtain ⟨rfl, hrest⟩ := hzero
        exact .inl ⟨_, rfl, .zero hrest⟩
      · refine .inr ⟨.control letter point hletter, rest, rfl, fun heq => ?_⟩
        exact (Bool.not_eq_true _).mp fun hrest => hzero ⟨heq, hrest⟩
    · exact .inr ⟨.verbatim d ⟨hend, hcontrol, not_or.mp hcode, hdigit⟩, rest, rfl, trivial⟩
  · refine .inr (.inr ?_)
    by_cases hreturn : c = '\r'
    · subst hreturn
      by_cases hfeed : rest.head? = some '\n'
      · obtain ⟨tail, rfl⟩ := List.head?_eq_some_iff.mp hfeed
        exact ⟨.lineEnd true, tail, rfl, trivial⟩
      · exact ⟨.lineEnd false, rest, rfl, hfeed⟩
    · exact ⟨.plain c hslash hreturn, rest, rfl, trivial⟩

/-- **Every text is read to its end, to a malformed escape or to a last backslash.** -/
theorem exists_reading (raw : List Char) :
    ∃ elements tail, Separated elements ∧ raw = spelled elements ++ tail ∧
      (tail = [] ∨ tail = ['\\'] ∨ ∃ rest, tail = '\\' :: rest ∧ Malformed rest) := by
  induction hlength : raw.length using Nat.strongRecOn generalizing raw with
  | ind n ih =>
    by_cases hraw : raw = []
    · exact ⟨[], [], trivial, hraw, .inl rfl⟩
    rcases exists_next hraw with hlast | hmalformed | ⟨element, rest, rfl, hnext⟩
    · exact ⟨[], raw, trivial, rfl, .inr (.inl hlast)⟩
    · exact ⟨[], raw, trivial, rfl, .inr (.inr hmalformed)⟩
    · have hpos := List.length_pos_iff.mpr element.spelling_ne_nil
      rw [List.length_append] at hlength
      obtain ⟨elements, tail, hseparated, rfl, htail⟩ := ih rest.length (by omega) rest rfl
      refine ⟨element :: elements, tail, ⟨?_, hseparated⟩, by simp [spelled], htail⟩
      rw [List.head?_append] at hnext
      rcases hhead : (spelled elements).head? with _ | c
      · exact element.mayPrecede_slash (.inl rfl)
      · rw [hhead] at hnext
        exact hnext

/-! ## The last backslash -/

theorem endsUnpaired_cons {c : Char} (hslash : c ≠ '\\') (rest : List Char) :
    endsUnpaired (c :: rest) = endsUnpaired rest := by
  rw [endsUnpaired.eq_4]
  · rintro rfl
    exact absurd rfl hslash
  · rintro _ _ rfl
    exact absurd rfl hslash

theorem endsUnpaired_append {chars : List Char} (hslash : '\\' ∉ chars) (rest : List Char) :
    endsUnpaired (chars ++ rest) = endsUnpaired rest := by
  induction chars with
  | nil => rfl
  | cons c chars ih =>
    rw [List.mem_cons, not_or] at hslash
    rw [List.cons_append, endsUnpaired_cons (Ne.symm hslash.1), ih hslash.2]

/-- The number of a code point is spelled without a backslash. -/
theorem Coded.slash_notMem (code : Coded) : '\\' ∉ code.spelling := by
  have hdigits : '\\' ∉ code.digits := fun hmem => absurd (code.hex _ hmem) (by decide)
  rw [Coded.spelling]
  cases code.coding with
  | two => simpa using hdigits
  | four => simpa using hdigits
  | braced => simpa using hdigits

/-- In an element every backslash has a character to take. -/
theorem endsUnpaired_spelling_append (element : Element) (rest : List Char) :
    endsUnpaired (element.spelling ++ rest) = endsUnpaired rest := by
  match element with
  | .plain c hslash _ => exact endsUnpaired_cons hslash rest
  | .lineEnd true => exact endsUnpaired_append (by decide) rest
  | .lineEnd false => exact endsUnpaired_append (by decide) rest
  | .continuation mark hmark =>
    simp only [lineEnds, List.mem_cons, List.not_mem_nil, or_false] at hmark
    rcases hmark with rfl | rfl | rfl | rfl | rfl
    · rfl
    · rfl
    · exact endsUnpaired_cons (by decide) rest
    · rfl
    · rfl
  | .control letter _ _ => rfl
  | .coded code _ _ =>
    have hslash := code.slash_notMem
    obtain ⟨c, digits, hspelling⟩ : ∃ c digits, code.spelling = c :: digits := by
      refine List.exists_cons_of_ne_nil fun hnil => ?_
      have hhead := code.head?_spelling
      simp [hnil] at hhead
    rw [hspelling, List.mem_cons, not_or] at hslash
    rw [Element.spelling, hspelling]
    exact endsUnpaired_append hslash.2 rest
  | .verbatim c _ => rfl

theorem endsUnpaired_spelled_append (elements : List Element) (tail : List Char) :
    endsUnpaired (spelled elements ++ tail) = endsUnpaired tail := by
  induction elements with
  | nil => rfl
  | cons element rest ih =>
    rw [spelled, List.flatMap_cons, List.append_assoc, endsUnpaired_spelling_append]
    exact ih

/-! ## The whole text -/

theorem cook_spelled {elements : List Element} (h : Separated elements) :
    cook (spelled elements) = some (meant elements) := by
  have hcook : cook (spelled elements ++ []) = _ := cook_spelled_append h (.inl rfl)
  simpa [cook] using hcook

/-- A text is not cooked exactly when a malformed escape is met in it. -/
theorem cook_eq_none_iff {raw : List Char} : cook raw = none ↔ ∃ elements rest,
    Separated elements ∧ raw = spelled elements ++ '\\' :: rest ∧ Malformed rest := by
  constructor
  · intro hnone
    obtain ⟨elements, tail, hseparated, rfl, rfl | rfl | ⟨rest, rfl, hmalformed⟩⟩ := exists_reading raw
    · rw [List.append_nil, cook_spelled hseparated] at hnone
      cases hnone
    · rw [cook_spelled_append hseparated (.inr rfl), cook_slash] at hnone
      simp [escape?, cook] at hnone
    · exact ⟨elements, rest, hseparated, rfl, hmalformed⟩
  · rintro ⟨elements, rest, hseparated, rfl, hmalformed⟩
    rw [cook_spelled_append hseparated (.inr rfl), cook_slash, escape?_malformed hmalformed]
    rfl

/-- A text that is cooked and does not end in the middle of an escape is spelled by elements. -/
theorem exists_of_cook {raw : List Char} (hpaired : endsUnpaired raw = false) {text : Text}
    (hcook : cook raw = some text) :
    ∃ elements, Separated elements ∧ raw = spelled elements ∧ text = meant elements := by
  obtain ⟨elements, tail, hseparated, hraw, htail⟩ := exists_reading raw
  rcases htail with rfl | rfl | ⟨rest, rfl, hmalformed⟩
  · rw [List.append_nil] at hraw
    rw [hraw, cook_spelled hseparated] at hcook
    exact ⟨elements, hseparated, hraw, (Option.some.inj hcook).symm⟩
  · rw [hraw, endsUnpaired_spelled_append] at hpaired
    cases hpaired
  · rw [cook_eq_none_iff.mpr ⟨elements, rest, hseparated, hraw, hmalformed⟩] at hcook
    cases hcook

/-- **Cooking is the grammar of template text.** What separate elements spell is cooked to their values. A text
has no value exactly when a malformed escape is met in it behind separate elements. And a text that does not
end in the middle of an escape has a value exactly when separate elements spell it; the value is theirs. -/
theorem cook_follows_grammar :
    (∀ elements, Separated elements → cook (spelled elements) = some (meant elements)) ∧
    (∀ raw, cook raw = none ↔ ∃ elements rest,
      Separated elements ∧ raw = spelled elements ++ '\\' :: rest ∧ Malformed rest) ∧
    ∀ raw, endsUnpaired raw = false → ∀ text, cook raw = some text ↔
      ∃ elements, Separated elements ∧ raw = spelled elements ∧ text = meant elements := by
  refine ⟨fun elements => cook_spelled, fun raw => cook_eq_none_iff, fun raw hpaired text => ⟨?_, ?_⟩⟩
  · exact exists_of_cook hpaired
  · rintro ⟨elements, hseparated, rfl, rfl⟩
    exact cook_spelled hseparated

/-- Elements of every sort, some of which would run on into other neighbours: a line end before a line feed
that is its own, a zero before a letter, digits that end before more digits. -/
def mixedElements : List Element :=
  [.lineEnd true, .plain '\n' (by decide) (by decide), .control '0' '\x00' (by decide),
    .coded ⟨.two, ['4', '1'], List.all_eq_true.mp rfl, rfl⟩ (.scalar 'A') (by decide),
    .plain '2' (by decide) (by decide), .continuation ['\r'] (by decide),
    .coded ⟨.four, ['D', '8', '3', 'D'], List.all_eq_true.mp rfl, rfl⟩
      (.surrogate ⟨0x3D, by decide⟩) (by decide),
    .coded ⟨.braced, ['1', 'F', '6', '0', '0'], List.all_eq_true.mp rfl, by decide⟩
      (.scalar '😀') (by decide),
    .verbatim '\x60' ⟨by decide, by decide, by decide, by decide⟩, .lineEnd false]

theorem cook_follows_grammar_mixed :
    Separated mixedElements ∧
    cook (spelled mixedElements) = some (meant mixedElements) ∧
    endsUnpaired (spelled mixedElements) = false ∧
    (∃ elements, Separated elements ∧ spelled mixedElements = spelled elements ∧
      meant mixedElements = meant elements) ∧
    cook (spelled mixedElements ++ "\\u\x7b110000\x7d1".toList) = none := by
  obtain ⟨hcook, hnone, hsome⟩ := cook_follows_grammar
  have hseparated : Separated mixedElements := by
    simp only [Separated, mixedElements, Element.MayPrecede]
    decide
  have hpaired : endsUnpaired (spelled mixedElements) = false := by decide
  refine ⟨hseparated, hcook _ hseparated, hpaired, (hsome _ hpaired _).mp (hcook _ hseparated), ?_⟩
  refine (hnone _).mpr ⟨mixedElements, _, hseparated, rfl, ?_⟩
  exact .beyond ⟨.braced, ['1', '1', '0', '0', '0', '0'], List.all_eq_true.mp rfl, by decide⟩ ['1'] (by decide)

end LoggerLint.Template
