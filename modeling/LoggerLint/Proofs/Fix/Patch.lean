import LoggerLint.Fix.Batch
import LoggerLint.Proofs.Text.Utf8

/-!
# What edits do to a source

`Edit.rewrite` says what it means to carry out edits that follow one another: the source is copied, and
each span is replaced by the bytes of the edit's text. Applying such edits succeeds and gives just that
(`apply_of_apart`), and two edits that are merged into one have the same effect (`merge_pair`).
-/

namespace LoggerLint

namespace Edit

/-! ## Carrying out edits -/

/-- The bytes that an edit writes. -/
def bytes (edit : Edit) : Bytes :=
  edit.text.encode?.getD []

/-- The source from a position on, with the span of each edit replaced. -/
def rewrite (source : Bytes) : (position : Nat) → List Edit → Bytes
  | position, [] => source.drop position
  | position, edit :: rest =>
    slice source position edit.start ++ edit.bytes ++ rewrite source edit.stop rest

/-- The edits follow one another, none of them is reversed, and their texts can be written. -/
structure Apart (edits : List Edit) : Prop where
  /-- each edit ends before the next one starts -/
  ordered : edits.Pairwise fun a b => a.stop ≤ b.start
  /-- no edit is reversed -/
  forward : ∀ edit ∈ edits, edit.start ≤ edit.stop
  /-- every text has bytes -/
  encodable : ∀ edit ∈ edits, edit.text.encode? ≠ none

theorem encode?_eq_some_bytes {edit : Edit} (h : edit.text.encode? ≠ none) :
    edit.text.encode? = some edit.bytes := by
  rw [bytes]
  rcases henc : edit.text.encode? with _ | found
  · exact absurd henc h
  · rfl

theorem Apart.tail {edit : Edit} {rest : List Edit} (h : Apart (edit :: rest)) : Apart rest :=
  ⟨(List.pairwise_cons.mp h.ordered).2, fun other hother => h.forward other (.tail _ hother),
    fun other hother => h.encodable other (.tail _ hother)⟩

/-! ## Order -/

/-- Edits in order stay as they are. -/
theorem inOrder_of_pairwise {edits : List Edit} (h : edits.Pairwise fun a b => a.before b = true) :
    inOrder edits = edits :=
  List.mergeSort_of_pairwise h

theorem before_of_start_lt {a b : Edit} (h : a.start < b.start) : a.before b = true := by
  simp [before, h]

theorem Apart.pairwise_before {edits : List Edit} (h : Apart edits) :
    edits.Pairwise fun a b => a.before b = true := by
  refine h.ordered.imp_of_mem fun {a b} ha hb hle => ?_
  have hforward := h.forward a ha
  have hforward' := h.forward b hb
  simp only [before, Bool.or_eq_true, Bool.and_eq_true, decide_eq_true_eq, beq_iff_eq]
  omega

/-! ## Applying edits that follow one another -/

theorem splice_of_apart (source : Bytes) {position : Nat} {edits : List Edit} (h : Apart edits)
    (hposition : ∀ edit ∈ edits, position ≤ edit.start) :
    ∃ written stop, splice source position edits = .ok (written, stop) ∧
      written ++ source.drop stop = rewrite source position edits := by
  induction edits generalizing position with
  | nil => exact ⟨[], position, rfl, rfl⟩
  | cons edit rest ih =>
    have hstart := hposition edit (.head _)
    -- the rest is copied from the end of this edit on, and no later edit starts before it
    obtain ⟨written, stop, hsplice, hrewrite⟩ := ih h.tail (List.pairwise_cons.mp h.ordered).1
    refine ⟨slice source position edit.start ++ edit.bytes ++ written, stop, ?_, ?_⟩
    · rw [splice, if_neg (Nat.not_lt.mpr hstart),
        encode?_eq_some_bytes (h.encodable edit (.head _)), hsplice]
      rfl
    · rw [rewrite, List.append_assoc, hrewrite]

/-- **Edits that follow one another are carried out.** -/
theorem apply_of_apart {source : Bytes} {edits : List Edit} (h : Apart edits) :
    apply source edits = .ok (rewrite source 0 edits) := by
  obtain ⟨written, stop, hsplice, hrewrite⟩ :=
    splice_of_apart source h fun _ _ => Nat.zero_le _
  rw [apply, inOrder_of_pairwise h.pairwise_before, hsplice]
  exact congrArg Except.ok hrewrite

/-! ## Merging the edits of one fix -/

/-- The bytes of a text are a text. -/
theorem exists_bytes_eq_encode {edit : Edit} (h : edit.text.encode? ≠ none) :
    ∃ chars, edit.bytes = Utf8.encode chars := by
  have henc := encode?_eq_some_bytes h
  obtain ⟨chars, -, hchars⟩ := Option.map_eq_some_iff.mp henc
  exact ⟨chars, hchars.symm⟩

theorem slice_self (source : Bytes) (position : Nat) : slice source position position = [] :=
  List.drop_eq_nil_of_le (by rw [List.length_take]; omega)

/-- A single edit is merged into itself. -/
theorem merge_single {source : Bytes} {edit : Edit} (hforward : edit.start ≤ edit.stop)
    (hstop : edit.stop ≤ source.length) : merge source [edit] = .ok edit := by
  have hrange : edit.inRange source.length = true := by simp [inRange, hforward, hstop]
  simp [merge, inOrder, hrange]

/-- **Two edits are merged into one that has their effect**, if what stands between them is text. -/
theorem merge_pair {source : Bytes} {first second : Edit} (h : Apart [first, second])
    (hstop : second.stop ≤ source.length)
    (hbetween : ∃ chars, slice source first.stop second.start = Utf8.encode chars) :
    ∃ edit, merge source [first, second] = .ok edit ∧ edit.start = first.start ∧
      edit.stop = second.stop ∧ edit.text.encode? ≠ none ∧
      ∀ position rest, rewrite source position (edit :: rest) =
        rewrite source position (first :: second :: rest) := by
  have hle : first.stop ≤ second.start := (List.pairwise_cons.mp h.ordered).1 second (by simp)
  have hforward := h.forward first (by simp)
  have hforward' := h.forward second (by simp)
  have henc := h.encodable first (by simp)
  have henc' := h.encodable second (by simp)
  have hrange : first.inRange source.length = true := by
    simp only [inRange, Bool.and_eq_true, decide_eq_true_eq]
    omega
  have hrange' : second.inRange source.length = true := by
    simp only [inRange, Bool.and_eq_true, decide_eq_true_eq]
    omega
  obtain ⟨chars, hchars⟩ := exists_bytes_eq_encode henc
  obtain ⟨between, hbetween⟩ := hbetween
  obtain ⟨chars', hchars'⟩ := exists_bytes_eq_encode henc'
  -- both texts and what stands between them are one text, so the bytes written decode to it
  obtain ⟨text, htext⟩ : ∃ text, Utf8.encode text =
      first.bytes ++ slice source first.stop second.start ++ second.bytes :=
    ⟨chars ++ between ++ chars', by
      rw [hchars, hbetween, hchars', Utf8.encode_append, Utf8.encode_append]⟩
  have hsplice : splice source first.start [first, second] = .ok (Utf8.encode text, second.stop) := by
    simp only [splice, Nat.lt_irrefl, if_false, if_neg (Nat.not_lt.mpr hle),
      encode?_eq_some_bytes henc, encode?_eq_some_bytes henc', Except.map, slice_self, htext,
      List.nil_append, List.append_nil, List.append_assoc]
  have hdecode : Utf8.decode (Utf8.encode text) = .ok text := Utf8.decode_eq_ok_iff.mpr rfl
  refine ⟨⟨first.start, second.stop, .ofChars text⟩, ?_, rfl, rfl, by simp, fun position rest => ?_⟩
  · rw [merge, inOrder_of_pairwise h.pairwise_before]
    simp only [List.find?_cons, hrange, hrange', Bool.not_true, List.find?_nil, List.isEmpty_cons,
      Bool.false_eq_true, if_false, hsplice, hdecode]
  · have hbytes : bytes ⟨first.start, second.stop, .ofChars text⟩ = Utf8.encode text := by
      simp [bytes]
    simp only [rewrite, hbytes, htext, List.append_assoc]

end Edit

/-! ## Applying a batch -/

namespace Batch

/-- Reports whose fixes can all be merged lose none of them. -/
theorem merged_of_map_merge {source : Bytes} {reports : List Report} {fixes : List Edit}
    (hfixable : ∀ report ∈ reports, report.fixable = true)
    (h : reports.map (fun report => Edit.merge source report.edits) = fixes.map .ok) :
    merged source reports = .ok fixes := by
  induction reports generalizing fixes with
  | nil =>
    obtain rfl : fixes = [] := by simpa using h.symm
    rfl
  | cons report reports ih =>
    cases fixes with
    | nil => simp at h
    | cons fix fixes =>
      obtain ⟨hmerge, hrest⟩ : Edit.merge source report.edits = .ok fix ∧ _ := List.cons.inj h
      rw [merged, if_pos (hfixable report (.head _)), hmerge,
        ih (fun other hother => hfixable other (.tail _ hother)) hrest]
      rfl

/-- If the accepted fixes follow one another, they are carried out, and all others are skipped. -/
theorem apply_of_merged {source : Bytes} {reports : List Report} {fixes accepted : List Edit}
    (hmerged : merged source reports = .ok fixes)
    (haccept : accept 0 (Edit.inOrder fixes) = accepted) (hapart : Edit.Apart accepted) :
    apply source reports =
      .ok ⟨Edit.rewrite source 0 accepted, accepted.length, fixes.length - accepted.length⟩ := by
  simp only [apply, hmerged, haccept, Edit.apply_of_apart hapart]
  rfl

end Batch

end LoggerLint
