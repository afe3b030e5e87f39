import LoggerLint.Proofs.Fix.OneByOne
import LoggerLint.Proofs.Fix.Prologue

/-!
# Editing bytes is editing characters

The offsets of an edit count bytes. Where a source is a text and an edit starts and ends between two of its
characters, the edit is one of characters just as well: `Edit.characters` counts the characters before its
offsets. Replacing bytes and replacing characters then come to the same (`Edit.applyBackwards_encode`), so
such edits leave a text, and merging them never fails for want of one (`Edit.apply_edits_characters`).

The fixes of a pass are built from the spans of nodes, which lie between characters. So a pass is thrown away
for what it leaves only if the parser cannot read it, and never because it is no text.
-/

namespace LoggerLint

open Utf8 (encode Boundary)

namespace Utf8

/-! ## Counting characters -/

/-- How many characters stand before an offset. -/
def charsBefore (source : Bytes) (offset : Nat) : Nat :=
  (decodeLossy (source.take offset)).length

variable {chars : List Char} {offset : Nat}

/-- **A boundary cuts a text between two characters.** -/
theorem Boundary.cut (h : Boundary (encode chars) offset) :
    charsBefore (encode chars) offset ≤ chars.length ∧
      (encode chars).take offset = encode (chars.take (charsBefore (encode chars) offset)) ∧
      (encode chars).drop offset = encode (chars.drop (charsBefore (encode chars) offset)) := by
  obtain ⟨-, before, hbefore⟩ := h
  have hcount : charsBefore (encode chars) offset = before.length := by
    rw [charsBefore, hbefore, decodeLossy_encode]
  have hsplit : encode chars = encode before ++ (encode chars).drop offset := by
    rw [← hbefore, List.take_append_drop]
  obtain ⟨after, hchars, hafter⟩ := exists_eq_append_of_encode_eq hsplit
  rw [hcount, hbefore, hafter, hchars, List.take_left, List.drop_left, List.length_append]
  exact ⟨Nat.le_add_right _ _, rfl, rfl⟩

/-- Before a later boundary stand more characters. -/
theorem Boundary.charsBefore_le {start stop : Nat} (hstart : Boundary (encode chars) start)
    (hstop : Boundary (encode chars) stop) (hle : start ≤ stop) :
    charsBefore (encode chars) start ≤ charsBefore (encode chars) stop := by
  obtain ⟨-, before, hbefore⟩ := hstart
  obtain ⟨-, upto, hupto⟩ := hstop
  have htake : (encode chars).take start = ((encode chars).take stop).take start := by
    rw [List.take_take, Nat.min_eq_left hle]
  have hsplit : encode upto = encode before ++ (encode upto).drop start := by
    rw [← hbefore, htake, hupto, List.take_append_drop]
  obtain ⟨after, hafter, -⟩ := exists_eq_append_of_encode_eq hsplit
  rw [charsBefore, charsBefore, hbefore, hupto, decodeLossy_encode, decodeLossy_encode, hafter,
    List.length_append]
  exact Nat.le_add_right _ _

/-- Where the front of a text is cut off between two characters, so is the rest. -/
theorem drop_encode_of_take {count : Nat} (h : (encode chars).take offset = encode (chars.take count)) :
    (encode chars).drop offset = encode (chars.drop count) := by
  have hsplit : encode (chars.take count) ++ (encode chars).drop offset =
      encode (chars.take count) ++ encode (chars.drop count) := by
    rw [← encode_append, List.take_append_drop, ← h, List.take_append_drop]
  exact List.append_cancel_left hsplit

end Utf8

namespace Edit

variable {chars : List Char} {source : Bytes} {edits rest : List Edit} {edit : Edit}

/-! ## Edits of characters -/

/-- What an edit does to the characters of a source. -/
def characters (source : Bytes) (edit : Edit) : Replacement Char :=
  ⟨Utf8.charsBefore source edit.start, Utf8.charsBefore source edit.stop, edit.text.chars?.getD []⟩

/-- The edits follow one another, and each of them replaces characters of a source by characters. -/
structure Whole (source : Bytes) (edits : List Edit) : Prop extends Apart edits where
  /-- every edit starts between two characters -/
  start : ∀ edit ∈ edits, Boundary source edit.start
  /-- and ends between two -/
  stop : ∀ edit ∈ edits, Boundary source edit.stop

namespace Whole

theorem tail (h : Whole source (edit :: rest)) : Whole source rest :=
  ⟨h.toApart.tail, fun other hother => h.start other (.tail _ hother),
    fun other hother => h.stop other (.tail _ hother)⟩

theorem apart_replacements (h : Whole source edits) :
    Replacement.Apart source.length (edits.map replacement) :=
  Edit.apart_replacements h.ordered fun edit hedit => ⟨h.forward edit hedit, (h.stop edit hedit).1⟩

/-- Edits that follow one another in the bytes do so in the characters. -/
theorem apart_characters (h : Whole (encode chars) edits) :
    Replacement.Apart chars.length (edits.map (characters (encode chars))) := by
  constructor
  · refine List.pairwise_map.mpr (h.ordered.imp_of_mem fun {a b} ha hb hle => ?_)
    exact (h.stop a ha).charsBefore_le (h.start b hb) hle
  · refine List.forall_mem_map.mpr fun edit hedit => ⟨?_, (h.stop edit hedit).cut.1⟩
    exact (h.start edit hedit).charsBefore_le (h.stop edit hedit) (h.forward edit hedit)

end Whole

theorem bytes_eq_encode_items (source : Bytes) (htext : edit.text.encode? ≠ none) :
    edit.bytes = encode (edit.characters source).items := by
  obtain ⟨text, htext, hbytes⟩ := Option.map_eq_some_iff.mp (encode?_eq_some_bytes htext)
  rw [← hbytes, characters, htext, Option.getD_some]

/-- **Replacing bytes from the last edit to the first is replacing characters.** -/
theorem applyBackwards_encode (h : Whole (encode chars) edits) :
    Replacement.applyBackwards (edits.map replacement) (encode chars) =
      encode (Replacement.applyBackwards (edits.map (characters (encode chars))) chars) := by
  induction edits with
  | nil => rfl
  | cons edit rest ih =>
    have hrest := ih h.tail
    have hbytes := h.apart_replacements
    have hchars := h.apart_characters
    obtain ⟨-, hstart, -⟩ := (h.start edit (.head _)).cut
    obtain ⟨-, hstop, -⟩ := (h.stop edit (.head _)).cut
    -- the later edits leave what stands before them as it was, in the bytes and in the characters
    have hbefore := hbytes.take_start
    have hbefore' := hchars.take_start
    have hupto := hbytes.take_stop.1
    have hupto' := hchars.take_stop.1
    rw [List.map_cons, List.map_cons, Replacement.applyBackwards_cons, Replacement.applyBackwards_cons]
    generalize Replacement.applyBackwards (rest.map (characters (encode chars))) chars = text at *
    generalize Replacement.applyBackwards (rest.map replacement) (encode chars) = bytes at *
    subst hrest
    have hfront : (encode text).take edit.start = encode (text.take (edit.characters (encode chars)).start) :=
      hbefore.trans (hstart.trans (congrArg encode hbefore'.symm))
    have hback : (encode text).drop edit.stop = encode (text.drop (edit.characters (encode chars)).stop) :=
      Utf8.drop_encode_of_take (hupto.trans (hstop.trans (congrArg encode hupto'.symm)))
    rw [Replacement.apply, Replacement.apply, Utf8.encode_append, Utf8.encode_append, ← hfront, ← hback,
      ← bytes_eq_encode_items (encode chars) (h.encodable edit (.head _))]
    rfl

/-! ## Edits that do not overlap -/

/-- Put in order, edits that do not overlap follow one another. -/
theorem pairwise_inOrder_of_disjoint (hforward : ∀ edit ∈ edits, edit.start ≤ edit.stop)
    (hdisjoint : edits.Pairwise fun a b => a.stop ≤ b.start ∨ b.stop ≤ a.start) :
    (inOrder edits).Pairwise fun a b => a.stop ≤ b.start := by
  have hdisjoint' : (inOrder edits).Pairwise fun a b => a.stop ≤ b.start ∨ b.stop ≤ a.start :=
    ((List.mergeSort_perm edits before).pairwise_iff fun h => h.symm).mpr hdisjoint
  have hboth := (pairwise_inOrder edits).and hdisjoint'
  refine hboth.imp_of_mem fun {a b} _ hb ⟨hbefore, happart⟩ => ?_
  have hb := hforward b (mem_inOrder.mp hb)
  rw [before_iff] at hbefore
  omega

/-- Edits that do not overlap, from one character to another, are applied to the characters. -/
theorem apply_of_whole (h : Whole (encode chars) (inOrder edits)) :
    apply (encode chars) edits =
      .ok (encode (Replacement.applyBackwards ((inOrder edits).map (characters (encode chars))) chars)) := by
  rw [apply_eq_applyBackwards h.toApart h.apart_replacements, applyBackwards_encode h]

/-- Edits that can be applied to the characters can be merged. -/
theorem exists_merge_of_apply {output : Bytes} (hne : edits ≠ [])
    (hedits : ∀ edit ∈ edits, edit.start ≤ edit.stop ∧
      Boundary (encode chars) edit.start ∧ Boundary (encode chars) edit.stop)
    (h : apply (encode chars) edits = .ok output) : ∃ fix, merge (encode chars) edits = .ok fix := by
  rcases hmerge : merge (encode chars) edits with failure | fix
  · have hrange : ∀ edit ∈ edits, edit.inRange (encode chars).length = true := by
      intro edit hedit
      obtain ⟨hforward, -, hstop⟩ := hedits edit hedit
      simp [inRange, hforward, hstop.1]
    have htext : failure ≠ .undecodable := by
      rintro rfl
      exact merge_ne_undecodable rfl (fun edit hedit => (hedits edit hedit).2) hmerge
    cases (apply_eq_error_of_merge hne hrange htext hmerge).symm.trans h
  · exact ⟨fix, rfl⟩

/-- Whatever is left by edits from one character to another is a text. -/
theorem exists_text_of_apply {output : Bytes}
    (hedits : ∀ edit ∈ edits, Boundary (encode chars) edit.start ∧ Boundary (encode chars) edit.stop)
    (h : apply (encode chars) edits = .ok output) : ∃ text, output = encode text := by
  rw [apply] at h
  rcases hsplice : splice (encode chars) 0 (inOrder edits) with failure | ⟨written, stop⟩
  · rw [hsplice] at h
    cases h
  · rw [hsplice] at h
    obtain rfl := Except.ok.inj h
    have hordered : ∀ edit ∈ inOrder edits,
        Boundary (encode chars) edit.start ∧ Boundary (encode chars) edit.stop := by
      intro edit hedit
      exact hedits edit (mem_inOrder.mp hedit)
    obtain ⟨text, rfl⟩ := exists_text_of_splice rfl (Utf8.boundary_zero _) hordered hsplice
    -- the scan stops where it began, or where the last edit ends
    have hstop : Boundary (encode chars) stop := by
      rw [stop_of_splice hsplice]
      rcases hlast : (inOrder edits).getLast? with _ | last
      · exact Utf8.boundary_zero _
      · exact (hordered last (List.mem_of_getLast? hlast)).2
    obtain ⟨-, -, hdrop⟩ := hstop.cut
    refine ⟨text ++ chars.drop (Utf8.charsBefore (encode chars) stop), ?_⟩
    rw [Utf8.encode_append, ← hdrop]

end Edit

/-! ## The passes over a file -/

namespace Fix

variable {parse : Parser} {globals : List String} {path : String}

/-- What a pass over the reports of a source leaves is a text. -/
theorem exists_text_of_pass {source : Bytes} {linted : Linted} {batch : BatchOutcome}
    (hfits : (parse source).Fits source)
    (hlint : lint parse globals Rule.all source path = .ok linted)
    (h : Batch.apply source linted.reports = .ok batch) : ∃ text, batch.output = encode text := by
  obtain ⟨chars, rfl, hmem⟩ := mem_reports_of_lint hlint
  refine Edit.exists_text_of_apply (fun edit hedit => ?_) (Batch.apply_appliedEdits h)
  obtain ⟨report, hreport, hedit⟩ := Batch.exists_report_of_mem_appliedEdits hedit
  obtain ⟨call, -, hreplaces⟩ := Console.exists_replaces_of_mem_reportAll hfits ((hmem report).mp hreport)
  exact hreplaces.boundaries edit hedit

/-- A text is refused only for its syntax. -/
theorem fault_of_lint_encode {rules : List Rule} {chars : List Char} {error : SourceError}
    (h : lint parse globals rules (encode chars) path = .error error) : error.fault = .badSyntax := by
  have hdecode : Utf8.decode (encode chars) = .ok chars := Utf8.decode_eq_ok_iff.mpr rfl
  rw [lint, readScopes, hdecode] at h
  rcases herrors : (parse (encode chars)).errors with _ | ⟨fault, rest⟩
  · simp [herrors, Except.map] at h
  · simp only [herrors, Except.map] at h
    rw [← Except.error.inj h]

end Fix

/-- **Editing bytes is editing characters.** Take a source that is a text, and edits of it that do not overlap:
none is reversed, each starts and ends between two characters, and no text of theirs holds a surrogate. They
can be merged, if there are any. Applying them leaves a text, and its characters are those of the source
with the characters of the single spans replaced. And a pass over the reports of a file, if the spans of its
tree lie between characters, leaves a text: no linting of it, with whatever parser and rules, finds that
it is none. -/
theorem Edit.apply_edits_characters :
    (∀ source chars edits, Utf8.decode source = .ok chars →
      (∀ edit ∈ edits, edit.start ≤ edit.stop ∧ Boundary source edit.start ∧ Boundary source edit.stop) →
      (∀ edit ∈ edits, ∀ i, CodePoint.surrogate i ∉ edit.text) →
      (edits.Pairwise fun a b => a.stop ≤ b.start ∨ b.stop ≤ a.start) →
      (edits ≠ [] → ∃ fix, merge source edits = .ok fix) ∧
      ∃ output, apply source edits = .ok output ∧
        Utf8.decode output =
          .ok (Replacement.applyBackwards ((inOrder edits).map (characters source)) chars)) ∧
    ∀ parse globals source path linted batch, (parse source).Fits source →
      lint parse globals Rule.all source path = .ok linted →
      Batch.apply source linted.reports = .ok batch →
      (∃ chars, Utf8.decode batch.output = .ok chars) ∧
      ∀ parse globals rules path error, lint parse globals rules batch.output path = .error error →
        error.fault = .badSyntax := by
  refine ⟨fun source chars edits hdecode hedits htexts hdisjoint => ?_, ?_⟩
  · obtain rfl := Utf8.decode_eq_ok_iff.mp hdecode
    have hpairs := pairwise_inOrder_of_disjoint (fun edit hedit => (hedits edit hedit).1) hdisjoint
    have hwhole : Whole (encode chars) (inOrder edits) := by
      refine ⟨⟨hpairs, ?_, ?_⟩, ?_, ?_⟩
      · intro edit hedit
        exact (hedits edit (mem_inOrder.mp hedit)).1
      · intro edit hedit hnone
        obtain ⟨i, hi⟩ := Text.encode?_eq_none_iff.mp hnone
        exact htexts edit (mem_inOrder.mp hedit) i hi
      · intro edit hedit
        exact (hedits edit (mem_inOrder.mp hedit)).2.1
      · intro edit hedit
        exact (hedits edit (mem_inOrder.mp hedit)).2.2
    have happly := apply_of_whole hwhole
    refine ⟨fun hne => exists_merge_of_apply hne hedits happly, _, happly, ?_⟩
    exact Utf8.decode_eq_ok_iff.mpr rfl
  · intro parse globals source path linted batch hfits hlint hbatch
    obtain ⟨text, htext⟩ := Fix.exists_text_of_pass hfits hlint hbatch
    rw [htext]
    exact ⟨⟨text, Utf8.decode_eq_ok_iff.mpr rfl⟩, fun _ _ _ _ _ => Fix.fault_of_lint_encode⟩

/-- Edits behind a character of two bytes replace the characters there; and a pass that is thrown away leaves a
text that the parser cannot read. -/
theorem Edit.apply_edits_characters_touching :
    Utf8.decode touchingSource = .ok "aébcd".toList ∧
    (∀ edit ∈ touchingEdits, edit.start ≤ edit.stop ∧
      Boundary touchingSource edit.start ∧ Boundary touchingSource edit.stop) ∧
    (∀ edit ∈ touchingEdits, ∀ i, CodePoint.surrogate i ∉ edit.text) ∧
    (touchingEdits.Pairwise fun a b => a.stop ≤ b.start ∨ b.stop ≤ a.start) ∧
    (∃ fix, merge touchingSource touchingEdits = .ok fix) ∧
    (∃ output, apply touchingSource touchingEdits = .ok output ∧
      Utf8.decode output = .ok "aiybXd".toList) ∧
    (Fix.callParser Fix.callSource).Fits Fix.callSource ∧
    ∃ linted batch error,
      lint Fix.callParser ["logger"] Rule.all Fix.callSource "a.ts" = .ok linted ∧
      Batch.apply Fix.callSource linted.reports = .ok batch ∧
      lint Fix.callParser ["logger"] Rule.all batch.output "a.ts" = .error error ∧
      error.fault = .badSyntax := by
  have hdecode : Utf8.decode touchingSource = .ok "aébcd".toList := Utf8.decode_eq_ok_iff.mpr rfl
  have hedits : ∀ edit ∈ touchingEdits, edit.start ≤ edit.stop ∧
      Boundary touchingSource edit.start ∧ Boundary touchingSource edit.stop := by
    decide +kernel
  have htexts : ∀ edit ∈ touchingEdits, ∀ i, CodePoint.surrogate i ∉ edit.text := by
    simp [touchingEdits, Text.ofString, Text.ofChars]
  have hdisjoint : touchingEdits.Pairwise fun a b => a.stop ≤ b.start ∨ b.stop ≤ a.start := by
    decide
  obtain ⟨hmerge, output, happly, htext⟩ := apply_edits_characters.1 touchingSource _ touchingEdits hdecode
    hedits htexts hdisjoint
  have hreplaced : Replacement.applyBackwards ((inOrder touchingEdits).map (characters touchingSource))
      "aébcd".toList = "aiybXd".toList := by
    rw [inOrder_touchingEdits]
    decide +kernel
  rw [hreplaced] at htext
  obtain ⟨linted, report, hlint, hreports, hcall⟩ := Fix.exists_lint_call
  obtain ⟨batch, error, ⟨-, hbatch, -⟩, hrefused⟩ := Fix.discards_call hcall
  rw [← hreports] at hbatch
  have hfits : (Fix.callParser Fix.callSource).Fits Fix.callSource :=
    Fix.fits_of_only (by decide +kernel : Fix.callRoot.Fits Fix.callSource) Fix.callSource
  have hfault := (apply_edits_characters.2 Fix.callParser ["logger"] Fix.callSource "a.ts" linted batch hfits
    hlint hbatch).2 _ _ _ _ _ hrefused
  exact ⟨hdecode, hedits, htexts, hdisjoint, hmerge (by decide), ⟨output, happly, htext⟩, hfits,
    linted, batch, error, hlint, hbatch, hrefused, hfault⟩

end LoggerLint
