import LoggerLint.Console.Call
import LoggerLint.Proofs.Text.Utf8

/-!
# Template literals that are written back

The argument of a call is written back as its cooked text between backticks. Whether that is a literal
with the value of the original is a question about the text alone:

* `Template.Body` says which characters can stand between the backticks of one literal without
  substitutions, and `Template.Literal` that a text is such a literal with a given value;
* a value is `Template.Plain` when it holds no surrogate, backslash, carriage return or backtick, and no
  dollar before a brace.

`Template.literal_iff_plain` says that the text written back is a literal with the value of the original
if and only if this value is plain. A template spelled without a backslash has a plain value, so it is
always kept; one that escapes a backslash, a backtick or a substitution is not.
-/

namespace LoggerLint

namespace Template

/-! ## The characters between backticks -/

/-- The characters of one template literal without substitutions: a backslash takes the next character
with it, and a bare backtick or substitution does not occur. -/
inductive Body : List Char → Prop where
  /-- nothing -/
  | nil : Body []
  /-- a backslash and any character -/
  | escaped (c : Char) {rest : List Char} (hrest : Body rest) : Body ('\\' :: c :: rest)
  /-- a character that ends nothing and begins nothing -/
  | bare {c : Char} {rest : List Char} (hslash : c ≠ '\\') (htick : c ≠ '\x60')
      (hdollar : c = '$' → rest.head? ≠ some '\x7b') (hrest : Body rest) : Body (c :: rest)

/-- The text is one template literal without substitutions, and this is its value. -/
def Literal (text value : Text) : Prop :=
  ∃ body, Body body ∧ cook body = some value ∧
    text = Console.backtick :: Text.ofChars body ++ [Console.backtick]

/-- Characters that mean themselves between backticks. -/
structure PlainChars (chars : List Char) : Prop where
  /-- no backslash -/
  slash : '\\' ∉ chars
  /-- no carriage return -/
  cr : '\r' ∉ chars
  /-- no backtick -/
  tick : '\x60' ∉ chars
  /-- no dollar before a brace -/
  substitution : ¬ ['$', '\x7b'] <:+: chars

/-- A value that means itself between backticks. -/
def Plain (value : Text) : Prop :=
  ∃ chars, value = .ofChars chars ∧ PlainChars chars

/-- Without a backslash, a body is what holds no backtick and no substitution. -/
theorem body_iff_of_no_slash {chars : List Char} (hslash : '\\' ∉ chars) :
    Body chars ↔ '\x60' ∉ chars ∧ ¬ ['$', '\x7b'] <:+: chars := by
  induction chars with
  | nil => exact ⟨fun _ => by simp, fun _ => .nil⟩
  | cons c rest ih =>
    rw [List.mem_cons, not_or] at hslash
    obtain ⟨hc, hrest⟩ := hslash
    have hstart : ['$', '\x7b'] <+: c :: rest ↔ c = '$' ∧ rest.head? = some '\x7b' := by
      cases rest with
      | nil => simp
      | cons d rest => simp [eq_comm]
    rw [List.mem_cons, List.infix_cons_iff, hstart]
    constructor
    · intro h
      cases h with
      | escaped => exact absurd rfl hc
      | bare _ htick hdollar hbody =>
        obtain ⟨htick', hsub⟩ := (ih hrest).mp hbody
        refine ⟨?_, ?_⟩
        · rintro (rfl | hmem)
          · exact htick rfl
          · exact htick' hmem
        · rintro (⟨hdollar', hbrace⟩ | hinner)
          · exact hdollar hdollar' hbrace
          · exact hsub hinner
    · rintro ⟨htick, hsub⟩
      rw [not_or] at htick hsub
      exact .bare (Ne.symm hc) (Ne.symm htick.1) (fun hdollar hbrace => hsub.1 ⟨hdollar, hbrace⟩)
        ((ih hrest).mpr ⟨htick.2, hsub.2⟩)

/-! ## Values that stay what they are -/

theorem cook_bare {c : Char} (hslash : c ≠ '\\') (hcr : c ≠ '\r') (rest : List Char) :
    cook (c :: rest) = (cook rest).map (.scalar c :: ·) := by
  rw [cook]
  · rw [if_neg hslash, if_neg hcr]
  · intro rest' hreturn
    exact absurd hreturn hcr

/-- A text is no longer than its spelling. -/
theorem length_cook {raw : List Char} {value : Text} (h : cook raw = some value) :
    value.length ≤ raw.length := by
  fun_induction cook raw generalizing value with
  | case1 =>
    obtain rfl := Option.some.inj h
    exact Nat.le_refl _
  | case2 rest ih =>
    obtain ⟨value, hvalue, rfl⟩ := Option.map_eq_some_iff.mp h
    have := ih hvalue
    simp only [List.length_cons]
    omega
  | case3 rest hrest hnone => cases h
  | case4 rest escaped rest' hescape _ _ ih =>
    obtain ⟨value, hvalue, rfl⟩ := Option.map_eq_some_iff.mp h
    have hle := ih hvalue
    cases rest with
    | nil =>
      obtain ⟨rfl, rfl⟩ := Prod.mk.inj (Option.some.inj hescape)
      simpa using hle
    | cons c rest =>
      have := length_escape?_cons hescape
      simp only [List.length_append, List.length_cons]
      omega
  | case5 rest _ _ ih =>
    obtain ⟨value, hvalue, rfl⟩ := Option.map_eq_some_iff.mp h
    exact Nat.succ_le_succ (ih hvalue)
  | case6 c rest _ _ _ ih =>
    obtain ⟨value, hvalue, rfl⟩ := Option.map_eq_some_iff.mp h
    exact Nat.succ_le_succ (ih hvalue)

theorem cook_slash (rest : List Char) :
    cook ('\\' :: rest) = (escape? rest).bind fun (value, rest) => (cook rest).map (value ++ ·) := by
  rw [cook]
  · rw [if_pos rfl]
    split
    · rename_i h
      simp only [h, Option.bind_none]
    · rename_i h
      simp only [h, Option.bind_some]
  · intro rest' hreturn
    exact absurd hreturn (by decide)

theorem cook_return {rest : List Char} (hfeed : rest.head? ≠ some '\n') :
    cook ('\r' :: rest) = (cook rest).map (.scalar '\n' :: ·) := by
  rw [cook]
  · rfl
  · rintro rest' - rfl
    exact hfeed rfl

/-- What a text that begins with a backslash is cooked to. -/
theorem exists_of_cook_slash {cs : List Char} {value : Text} (h : cook ('\\' :: cs) = some value) :
    ∃ head rest tail, escape? cs = some (head, rest) ∧ cook rest = some tail ∧
      value = head ++ tail := by
  rw [cook_slash] at h
  obtain ⟨⟨head, rest⟩, hescape, hrest⟩ := Option.bind_eq_some_iff.mp h
  obtain ⟨tail, htail, rfl⟩ := Option.map_eq_some_iff.mp hrest
  exact ⟨head, rest, tail, hescape, htail, rfl⟩

/-- A carriage return is cooked to a line feed, with the line feed behind it if there is one. -/
theorem exists_of_cook_return (cs : List Char) :
    ∃ rest, cook ('\r' :: cs) = (cook rest).map (.scalar '\n' :: ·) := by
  by_cases hfeed : cs.head? = some '\n'
  · obtain ⟨rest, rfl⟩ := List.head?_eq_some_iff.mp hfeed
    exact ⟨rest, by rw [cook]⟩
  · exact ⟨cs, cook_return hfeed⟩

/-- **A body stays what it is exactly when no escape and no carriage return stands in it.** -/
theorem cook_eq_self_iff {chars : List Char} (h : Body chars) :
    cook chars = some (.ofChars chars) ↔ '\\' ∉ chars ∧ '\r' ∉ chars := by
  induction h with
  | nil => simp [cook, Text.ofChars]
  | @escaped c rest _ _ =>
    -- an escape is longer than what it stands for
    refine iff_of_false (fun hcook => ?_) (by simp)
    obtain ⟨head, rest', tail, hescape, htail, hvalue⟩ := exists_of_cook_slash hcook
    have hlength := congrArg List.length hvalue
    have hhead := length_escape?_cons hescape
    have hle := length_cook htail
    simp only [Text.ofChars, List.length_map, List.length_cons, List.length_append] at hlength
    omega
  | @bare c rest hslash _ _ _ ih =>
    by_cases hcr : c = '\r'
    · subst hcr
      refine iff_of_false (fun hcook => ?_) (by simp)
      obtain ⟨rest', hreturn⟩ := exists_of_cook_return rest
      obtain ⟨tail, -, hvalue⟩ := Option.map_eq_some_iff.mp (hreturn.symm.trans hcook)
      cases (List.cons.inj hvalue).1
    · have hmap : (cook rest).map (.scalar c :: ·) = some (Text.ofChars (c :: rest)) ↔
          cook rest = some (Text.ofChars rest) := by
        simp [Text.ofChars, Option.map_eq_some_iff]
      rw [cook_bare hslash hcr, hmap, ih]
      simp [Ne.symm hslash, Ne.symm hcr]

theorem Body.tail {c : Char} {rest : List Char} (h : Body (c :: rest)) (hslash : c ≠ '\\') :
    Body rest := by
  cases h with
  | escaped => exact absurd rfl hslash
  | bare _ _ _ hrest => exact hrest

/-- **A spelling without a backslash is cooked to plain characters.** Only its line ends change. -/
theorem exists_of_cook_no_slash {raw : List Char} (hslash : '\\' ∉ raw) (hbody : Body raw) :
    ∃ chars, cook raw = some (.ofChars chars) ∧ '\\' ∉ chars ∧ '\r' ∉ chars ∧ Body chars ∧
      (chars.head? = some '\x7b' → raw.head? = some '\x7b') := by
  -- a line end begins nothing, so it can stand before any body
  have feed : ∀ {rest chars : List Char}, cook rest = some (.ofChars chars) → '\\' ∉ chars →
      '\r' ∉ chars → Body chars → ∃ chars', (cook rest).map (.scalar '\n' :: ·) =
        some (Text.ofChars chars') ∧ '\\' ∉ chars' ∧ '\r' ∉ chars' ∧ Body chars' ∧
        chars'.head? ≠ some '\x7b' := by
    intro rest chars hcook hslash hcr hchars
    refine ⟨'\n' :: chars, by rw [hcook]; rfl, by simpa using hslash, by simpa using hcr, ?_, by simp⟩
    exact .bare (by decide) (by decide) (by simp) hchars
  fun_induction cook raw with
  | case1 => exact ⟨[], rfl, by simp, by simp, .nil, by simp⟩
  | case2 rest ih =>
    simp only [List.mem_cons, not_or] at hslash
    obtain ⟨chars, hcook, hslash', hcr, hchars, -⟩ :=
      ih hslash.2.2 ((hbody.tail (by decide)).tail (by decide))
    obtain ⟨chars', hcook', hslash', hcr', hchars', hhead⟩ := feed hcook hslash' hcr hchars
    exact ⟨chars', hcook', hslash', hcr', hchars', fun h => absurd h hhead⟩
  | case3 => simp at hslash
  | case4 => simp at hslash
  | case5 rest _ _ ih =>
    simp only [List.mem_cons, not_or] at hslash
    obtain ⟨chars, hcook, hslash', hcr, hchars, -⟩ := ih hslash.2 (hbody.tail (by decide))
    obtain ⟨chars', hcook', hslash', hcr', hchars', hhead⟩ := feed hcook hslash' hcr hchars
    exact ⟨chars', hcook', hslash', hcr', hchars', fun h => absurd h hhead⟩
  | case6 c rest _ hbare hreturn ih =>
    simp only [List.mem_cons, not_or] at hslash
    obtain ⟨chars, hcook, hslash', hcr, hchars, hhead⟩ := ih hslash.2 (hbody.tail hbare)
    refine ⟨c :: chars, by rw [hcook]; rfl, ?_, ?_, ?_, fun h => h⟩
    · simpa using ⟨hslash.1, hslash'⟩
    · simpa using ⟨Ne.symm hreturn, hcr⟩
    · cases hbody with
      | escaped => exact absurd rfl hbare
      | bare _ htick hdollar _ =>
        exact .bare hbare htick (fun hc hbrace => hdollar hc (hhead hbrace)) hchars

/-! ## Literals -/

theorem literal_ofChars_iff {body : List Char} {value : Text} :
    Literal (Console.backtick :: Text.ofChars body ++ [Console.backtick]) value ↔
      Body body ∧ cook body = some value := by
  constructor
  · rintro ⟨body', hbody, hcook, htext⟩
    have hchars := congrArg Text.chars? (List.append_cancel_right (List.cons.inj htext).2)
    rw [Text.chars?_ofChars, Text.chars?_ofChars] at hchars
    obtain rfl := Option.some.inj hchars
    exact ⟨hbody, hcook⟩
  · rintro ⟨hbody, hcook⟩
    exact ⟨body, hbody, hcook, rfl⟩

/-- **A value between backticks is a literal with that value exactly when it is plain.** -/
theorem literal_iff_plain {value : Text} :
    Literal (Console.backtick :: value ++ [Console.backtick]) value ↔ Plain value := by
  constructor
  · rintro ⟨body, hbody, hcook, htext⟩
    obtain rfl : value = .ofChars body :=
      List.append_cancel_right (List.cons.inj htext).2
    obtain ⟨hslash, hcr⟩ := (cook_eq_self_iff hbody).mp hcook
    obtain ⟨htick, hsub⟩ := (body_iff_of_no_slash hslash).mp hbody
    exact ⟨body, rfl, hslash, hcr, htick, hsub⟩
  · rintro ⟨chars, rfl, hslash, hcr, htick, hsub⟩
    have hbody := (body_iff_of_no_slash hslash).mpr ⟨htick, hsub⟩
    exact ⟨chars, hbody, (cook_eq_self_iff hbody).mpr ⟨hslash, hcr⟩, rfl⟩

/-- A spelling without a backslash has a plain value. -/
theorem plain_of_no_slash {raw : List Char} {value : Text} (hslash : '\\' ∉ raw) (hbody : Body raw)
    (hcook : cook raw = some value) : Plain value := by
  obtain ⟨chars, hchars, hslash', hcr, hbody', -⟩ := exists_of_cook_no_slash hslash hbody
  obtain rfl := Option.some.inj (hcook.symm.trans hchars)
  obtain ⟨htick, hsub⟩ := (body_iff_of_no_slash hslash').mp hbody'
  exact ⟨chars, rfl, hslash', hcr, htick, hsub⟩

end Template

/-! ## The arguments of a call -/

namespace Console

/-- Is the argument a template without substitutions, in whatever parentheses? -/
structure IsTemplate (argument : Node) : Prop where
  /-- it is a template -/
  kind : (unwrap argument).kind = "template_string"
  /-- without substitutions -/
  whole : ∀ child ∈ (unwrap argument).namedChildren, child.kind ≠ "template_substitution"

/-- The characters between the backticks of a template. -/
def templateRaw (source : Bytes) (argument : Node) : List Char :=
  (((unwrap argument).text source).toList.drop 1).dropLast

/-- A template is carried over if it has a value, and one that is not empty. -/
theorem templateText?_eq_some_iff {source : Bytes} {argument : Node} {text : Text} :
    templateText? source argument = some text ↔
      IsTemplate argument ∧ ∃ cooked, Template.cook (templateRaw source argument) = some cooked ∧
        cooked ≠ [] ∧ text = backtick :: cooked ++ [backtick] := by
  have hshape : IsTemplate argument ↔ ((unwrap argument).kind == "template_string" &&
      !((unwrap argument).namedChildren.any (·.kind == "template_substitution"))) = true := by
    simp only [Bool.and_eq_true, beq_iff_eq, Bool.not_eq_true', List.any_eq_false]
    exact ⟨fun h => ⟨h.kind, h.whole⟩, fun h => ⟨h.1, h.2⟩⟩
  rw [hshape]
  simp only [templateText?, templateRaw, Option.ite_none_right_eq_some]
  refine and_congr_right fun _ => ?_
  rcases Template.cook (((unwrap argument).text source).toList.drop 1).dropLast with
    _ | _ | ⟨point, rest⟩
  · simp
  · simp
  · simp [eq_comm]

/-- The arguments of an informational call are written one by one. -/
theorem argumentTexts_info_append (source : Bytes) (before after : List Node) :
    argumentTexts source .info (before ++ after) =
      argumentTexts source .info before ++ argumentTexts source .info after := by
  simp [argumentTexts]

/-- A template is written in its place, as its value between backticks. -/
theorem argumentTexts_of_cook {source : Bytes} {argument : Node} {cooked : Text}
    (h : IsTemplate argument) (hcook : Template.cook (templateRaw source argument) = some cooked)
    (hne : cooked ≠ []) (before after : List Node) :
    argumentTexts source .info (before ++ argument :: after) =
      argumentTexts source .info before ++ (backtick :: cooked ++ [backtick]) ::
        argumentTexts source .info after := by
  have hone : argumentTexts source .info [argument] = [backtick :: cooked ++ [backtick]] := by
    simp [argumentTexts, templateText?_eq_some_iff.mpr ⟨h, cooked, hcook, hne, rfl⟩]
  have hcons : before ++ argument :: after = before ++ ([argument] ++ after) := rfl
  rw [hcons, argumentTexts_info_append, argumentTexts_info_append, hone]
  rfl

/-- **A template is kept exactly when its value is plain.** A template argument without substitutions
and with a value that is not empty is written as its value between backticks, in its place among the
arguments. This is one literal without substitutions that has the same value if and only if the value is
plain; it is plain whenever the template is spelled without a backslash. -/
theorem template_kept_iff_plain (source : Bytes) (before after : List Node) (argument : Node)
    (cooked : Text) (h : IsTemplate argument)
    (hcook : Template.cook (templateRaw source argument) = some cooked) (hne : cooked ≠ []) :
    argumentTexts source .info (before ++ argument :: after) =
      argumentTexts source .info before ++ (backtick :: cooked ++ [backtick]) ::
        argumentTexts source .info after ∧
    (Template.Literal (backtick :: cooked ++ [backtick]) cooked ↔ Template.Plain cooked) ∧
    ('\\' ∉ templateRaw source argument → Template.Body (templateRaw source argument) →
      Template.Plain cooked) := by
  refine ⟨argumentTexts_of_cook h hcook hne before after, Template.literal_iff_plain, ?_⟩
  intro hslash hbody
  exact Template.plain_of_no_slash hslash hbody hcook

/-! ## Templates that are kept, and some that are not -/

/-- A source that is one template with these characters. -/
def templateSource (body : List Char) : Bytes :=
  Utf8.encode ('\x60' :: body ++ ['\x60'])

/-- The template that fills a source. -/
def templateNode (source : Bytes) : Node :=
  ⟨⟨"template_string", 0, source.length, none, true, false, false⟩, []⟩

theorem isTemplate_templateNode (source : Bytes) : IsTemplate (templateNode source) :=
  ⟨rfl, by simp [templateNode, unwrap, Node.namedChildren, Node.children]⟩

theorem templateRaw_templateNode (body : List Char) :
    templateRaw (templateSource body) (templateNode (templateSource body)) = body := by
  have hbytes : ∀ source, (unwrap (templateNode source)).bytes source = source := by
    intro source
    simp [templateNode, unwrap, Node.bytes, Node.label, Node.stop, Node.start]
  rw [templateRaw, Node.text, hbytes, templateSource, Utf8.decodeLossy_encode]
  simp

/-- A line end of two characters becomes one of one, and the value is the same. -/
theorem template_kept_line_end :
    argumentTexts (templateSource "a\r\nb".toList) .info
        [templateNode (templateSource "a\r\nb".toList)] =
      [backtick :: Text.ofString "a\nb" ++ [backtick]] ∧
    Template.Literal (backtick :: Text.ofString "a\nb" ++ [backtick]) (.ofString "a\nb") := by
  have hraw := templateRaw_templateNode "a\r\nb".toList
  have hslash : '\\' ∉ "a\r\nb".toList := by decide
  have hbody : Template.Body "a\r\nb".toList :=
    (Template.body_iff_of_no_slash hslash).mpr ⟨by decide, by decide⟩
  have hcook : Template.cook "a\r\nb".toList = some (.ofString "a\nb") := by cbv
  obtain ⟨htexts, hkept, hplain⟩ := template_kept_iff_plain _ [] [] _ _ (isTemplate_templateNode _)
    (hraw.symm ▸ hcook) (by decide)
  rw [hraw] at hplain
  exact ⟨htexts, hkept.mpr (hplain hslash hbody)⟩

/-- An escaped backslash is not kept: the template spells a backslash and an `n`, and what is written
back spells a line feed. And an escaped substitution becomes one that is carried out, so what is
written back is no literal of any value. -/
theorem template_not_kept :
    (argumentTexts (templateSource "\\\\n".toList) .info
        [templateNode (templateSource "\\\\n".toList)] =
      [backtick :: Text.ofString "\\n" ++ [backtick]] ∧
      Template.cook "\\\\n".toList = some (.ofString "\\n") ∧
      Template.Literal (backtick :: Text.ofString "\\n" ++ [backtick]) (.ofString "\n") ∧
      ¬ Template.Literal (backtick :: Text.ofString "\\n" ++ [backtick]) (.ofString "\\n")) ∧
    argumentTexts (templateSource "\\$\x7bx\x7d".toList) .info
        [templateNode (templateSource "\\$\x7bx\x7d".toList)] =
      [backtick :: Text.ofString "$\x7bx\x7d" ++ [backtick]] ∧
      Template.cook "\\$\x7bx\x7d".toList = some (.ofString "$\x7bx\x7d") ∧
      ∀ value, ¬ Template.Literal (backtick :: Text.ofString "$\x7bx\x7d" ++ [backtick]) value := by
  have hslash : Template.cook "\\\\n".toList = some (.ofString "\\n") := by cbv
  have hfeed : Template.cook "\\n".toList = some (.ofString "\n") := by cbv
  have hdollar : Template.cook "\\$\x7bx\x7d".toList = some (.ofString "$\x7bx\x7d") := by cbv
  have htexts : ∀ {body : List Char} {cooked : Text}, Template.cook body = some cooked →
      cooked ≠ [] → argumentTexts (templateSource body) .info [templateNode (templateSource body)] =
        [backtick :: cooked ++ [backtick]] := by
    intro body cooked hcook hne
    rw [← templateRaw_templateNode body] at hcook
    exact argumentTexts_of_cook (isTemplate_templateNode _) hcook hne [] []
  refine ⟨⟨htexts hslash (by decide), hslash, ?_, ?_⟩, htexts hdollar (by decide), hdollar, ?_⟩
  · exact Template.literal_ofChars_iff.mpr ⟨.escaped 'n' .nil, hfeed⟩
  · intro hliteral
    obtain ⟨-, hcook⟩ := Template.literal_ofChars_iff.mp hliteral
    exact absurd (hfeed.symm.trans hcook) (by decide)
  · intro value hliteral
    obtain ⟨hbody, -⟩ := Template.literal_ofChars_iff.mp hliteral
    cases hbody with
    | bare _ _ hbrace _ => exact hbrace rfl rfl

end Console

end LoggerLint
