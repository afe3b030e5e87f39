import LoggerLint.Console.Prologue
import LoggerLint.Proofs.Console.Escapes

/-!
# The namespace in the prologue

The prologue writes the namespace of a file between single quotes. `StringBody` is the grammar of what may stand
there, with the text that it spells. `quoteBody` puts a backslash before backslashes and quotes, and both stay what
they were (`stringBody_escaped_iff`). Every other character is written as it is and has to stand for itself, which
the two characters that end a line do not (`stringBody_cons_iff`).

So what is written is a literal, and then one that spells the namespace, if and only if the namespace holds no end of
a line (`namespace_literal_iff`). A file name may hold one.
-/

namespace LoggerLint.Prologue

open Template (Coded Verbatim controls lineEnds)

/-! ## Literals between single quotes -/

/-- **The characters between two single quotes**, and the text that they spell. -/
inductive StringBody : List Char → Text → Prop where
  /-- no characters -/
  | nil : StringBody [] []
  /-- a character that stands for itself -/
  | plain {c : Char} {rest : List Char} {value : Text} (hquote : c ≠ '\'') (hslash : c ≠ '\\') (hfeed : c ≠ '\n')
      (hreturn : c ≠ '\r') (hrest : StringBody rest value) : StringBody (c :: rest) (.scalar c :: value)
  /-- a backslash before a letter that names a character; a zero does so only where no digit follows -/
  | control {letter point : Char} {rest : List Char} {value : Text} (hletter : (letter, point) ∈ controls)
      (hzero : letter = '0' → rest.head?.any Char.isDigit = false) (hrest : StringBody rest value) :
      StringBody ('\\' :: letter :: rest) (.scalar point :: value)
  /-- a backslash before the number of a code point -/
  | coded (code : Coded) {point : CodePoint} {rest : List Char} {value : Text}
      (hpoint : point.toNat = code.number) (hrest : StringBody rest value) :
      StringBody ('\\' :: (code.spelling ++ rest)) (point :: value)
  /-- a backslash before a character that stands for itself -/
  | verbatim {c : Char} {rest : List Char} {value : Text} (hc : Verbatim c) (hrest : StringBody rest value) :
      StringBody ('\\' :: c :: rest) (.scalar c :: value)
  /-- a backslash before the end of a line, which spell nothing -/
  | continuation {mark rest : List Char} {value : Text} (hmark : mark ∈ lineEnds)
      (hfeed : mark = ['\r'] → rest.head? ≠ some '\n') (hrest : StringBody rest value) :
      StringBody ('\\' :: (mark ++ rest)) value

theorem stringBody_nil_iff {value : Text} : StringBody [] value ↔ value = [] := by
  constructor
  · intro h
    cases h
    rfl
  · rintro rfl
    exact .nil

/-- A backslash before a backslash or a quote spells that character. -/
theorem stringBody_escaped_iff {c : Char} (hc : c = '\\' ∨ c = '\'') {rest : List Char} {value : Text} :
    StringBody ('\\' :: c :: rest) value ↔ ∃ tail, value = .scalar c :: tail ∧ StringBody rest tail := by
  have hverbatim : Verbatim c := by
    rcases hc with rfl | rfl
    · exact ⟨by decide, by decide, by decide, by decide⟩
    · exact ⟨by decide, by decide, by decide, by decide⟩
  constructor
  · intro h
    generalize hbody : '\\' :: c :: rest = body at h
    cases h with
    | nil => cases hbody
    | plain _ hslash _ _ _ => exact absurd (List.cons.inj hbody).1.symm hslash
    | control hletter _ _ =>
      obtain ⟨rfl, -⟩ := List.cons.inj (List.cons.inj hbody).2
      exact absurd (List.mem_map.mpr ⟨_, hletter, rfl⟩) hverbatim.control
    | coded code _ _ =>
      -- the number of a code point begins with a letter
      obtain ⟨letter, more, hspelling, hletter⟩ :
          ∃ letter more, code.spelling = letter :: more ∧ (letter = 'x' ∨ letter = 'u') := by
        rcases code.head?_spelling with hx | hu
        · obtain ⟨more, hmore⟩ := List.head?_eq_some_iff.mp hx
          exact ⟨'x', more, hmore, .inl rfl⟩
        · obtain ⟨more, hmore⟩ := List.head?_eq_some_iff.mp hu
          exact ⟨'u', more, hmore, .inr rfl⟩
      rw [hspelling] at hbody
      obtain ⟨rfl, -⟩ := List.cons.inj (List.cons.inj hbody).2
      exact absurd hletter (not_or.mpr hverbatim.code)
    | verbatim _ hrest =>
      obtain ⟨rfl, rfl⟩ := List.cons.inj (List.cons.inj hbody).2
      exact ⟨_, rfl, hrest⟩
    | continuation hmark _ _ =>
      simp only [lineEnds, List.mem_cons, List.not_mem_nil, or_false] at hmark
      rcases hmark with rfl | rfl | rfl | rfl | rfl
      all_goals
        obtain ⟨rfl, -⟩ := List.cons.inj (List.cons.inj hbody).2
        exact absurd hc (by decide)
  · rintro ⟨tail, rfl, hrest⟩
    exact .verbatim hverbatim hrest

/-- Any other character spells itself, unless it ends a line. -/
theorem stringBody_cons_iff {c : Char} (hslash : c ≠ '\\') (hquote : c ≠ '\'') {rest : List Char} {value : Text} :
    StringBody (c :: rest) value ↔
      (c ≠ '\n' ∧ c ≠ '\r') ∧ ∃ tail, value = .scalar c :: tail ∧ StringBody rest tail := by
  constructor
  · intro h
    cases h with
    | plain _ _ hfeed hreturn hrest => exact ⟨⟨hfeed, hreturn⟩, _, rfl, hrest⟩
    | control => exact absurd rfl hslash
    | coded => exact absurd rfl hslash
    | verbatim => exact absurd rfl hslash
    | continuation => exact absurd rfl hslash
  · rintro ⟨⟨hfeed, hreturn⟩, tail, rfl, hrest⟩
    exact .plain hquote hslash hfeed hreturn hrest

/-! ## What is written between the quotes -/

/-- **What is written is a literal exactly if no line ends in the text**, and then it spells the text. -/
theorem stringBody_quoteBody_iff {text : List Char} {value : Text} :
    StringBody (quoteBody text) value ↔ ('\n' ∉ text ∧ '\r' ∉ text) ∧ value = .ofChars text := by
  induction text generalizing value with
  | nil => simp [quoteBody, stringBody_nil_iff, Text.ofChars]
  | cons c text ih =>
    have hbody : quoteBody (c :: text) =
        (if c = '\\' ∨ c = '\'' then ['\\', c] else [c]) ++ quoteBody text := by
      simp [quoteBody]
    have hends : ('\n' ∉ c :: text ∧ '\r' ∉ c :: text) ↔
        (c ≠ '\n' ∧ c ≠ '\r') ∧ '\n' ∉ text ∧ '\r' ∉ text := by
      simp only [List.mem_cons, not_or, ne_eq, eq_comm (a := c)]
      exact and_and_and_comm
    have hvalue : (∃ tail, value = .scalar c :: tail ∧ StringBody (quoteBody text) tail) ↔
        ('\n' ∉ text ∧ '\r' ∉ text) ∧ value = .ofChars (c :: text) := by
      simp only [ih]
      constructor
      · rintro ⟨tail, rfl, htext, rfl⟩
        exact ⟨htext, rfl⟩
      · rintro ⟨htext, rfl⟩
        exact ⟨_, rfl, htext, rfl⟩
    rw [hbody, hends]
    by_cases hc : c = '\\' ∨ c = '\''
    · have hself : c ≠ '\n' ∧ c ≠ '\r' := by
        rcases hc with rfl | rfl <;> decide
      rw [if_pos hc, List.cons_append, List.singleton_append, stringBody_escaped_iff hc, hvalue, and_iff_right hself]
    · obtain ⟨hslash, hquote⟩ := not_or.mp hc
      rw [if_neg hc, List.singleton_append, stringBody_cons_iff hslash hquote, hvalue]
      exact and_assoc.symm

/-- What stands before the namespace. -/
def opening : String :=
  "import \x7b logger \x7d from 'lib/logger';\nconst moduleLogger = logger.child(\x7b namespace: ['"

/-- What stands after it. -/
def closing : String := "'] \x7d);\n"

theorem render_eq (path : String) :
    render path = opening ++ String.ofList (quoteBody (fileNamespace path.toList)) ++ closing := by
  have hopening : "import \x7b " ++ loggerName ++ " \x7d from '" ++ importPath ++ "';\nconst " ++ moduleLoggerName ++
      " = " ++ loggerName ++ ".child(\x7b namespace: ['" = opening := by
    decide +kernel
  exact congrArg (· ++ String.ofList (quoteBody (fileNamespace path.toList)) ++ closing) hopening

/-- **The namespace in the prologue is a literal exactly if no line ends in it.** What the prologue holds between the
two quotes can be read as a literal if and only if the namespace of the file holds neither a line feed nor a carriage
return; whenever it can be read it spells the namespace, and nothing else. -/
theorem namespace_literal_iff (path : String) :
    ∃ body, render path = opening ++ String.ofList body ++ closing ∧
      ((∃ value, StringBody body value) ↔
        '\n' ∉ fileNamespace path.toList ∧ '\r' ∉ fileNamespace path.toList) ∧
      ∀ value, StringBody body value → value = .ofChars (fileNamespace path.toList) := by
  refine ⟨_, render_eq path, ?_, fun value hvalue => (stringBody_quoteBody_iff.mp hvalue).2⟩
  simp only [stringBody_quoteBody_iff]
  exact ⟨fun ⟨_, hends, _⟩ => hends, fun hends => ⟨_, hends, rfl⟩⟩

/-- A file whose name goes on after a line feed has a prologue with no literal in it. -/
theorem namespace_no_literal :
    render "a\nb.js" = opening ++ "a\nb" ++ closing ∧ ¬ ∃ value, StringBody "a\nb".toList value := by
  have hname : fileNamespace "a\nb.js".toList = "a\nb".toList := by decide
  have hbody : quoteBody "a\nb".toList = "a\nb".toList := by decide
  constructor
  · rw [render_eq, hname, hbody, String.ofList_toList]
  · rintro ⟨value, hvalue⟩
    rw [← hbody, stringBody_quoteBody_iff] at hvalue
    exact absurd hvalue.1.1 (by decide)

end LoggerLint.Prologue
