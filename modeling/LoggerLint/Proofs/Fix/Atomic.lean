import LoggerLint.Proofs.Fix.Patch

/-!
# A fix is applied as a whole or not at all

A pass merges the edits of each fix, scans the merged fixes in order, and writes those that start no
earlier than the last accepted one ends. `Batch.apply_all_or_nothing` says what that comes to for any
reports whatever:

* a pass never ends in a conflict; a fix in conflict is dropped by itself;
* every report is applied, skipped, without a fix, or dropped;
* the accepted fixes do not overlap, and a skipped one starts inside an accepted one;
* what is written is what all edits of the accepted reports write, and no edit of any other report.

The last point rests on two facts. A merged fix writes what its edits write (`Edit.splice_merge`). And
the edits of fixes that follow one another can be put in order fix by fix (`Edit.inOrder_append`), also
where edits of two fixes meet at one offset: sorting leaves edits with one span as they stood.
-/

namespace LoggerLint

namespace Edit

/-! ## Order -/

theorem before_iff {a b : Edit} :
    a.before b = true ↔ a.start < b.start ∨ a.start = b.start ∧ a.stop ≤ b.stop := by
  simp [before]

theorem before_trans (a b c : Edit) (hab : a.before b = true) (hbc : b.before c = true) :
    a.before c = true := by
  rw [before_iff] at *
  omega

theorem before_total (a b : Edit) : (a.before b || b.before a) = true := by
  rw [Bool.or_eq_true, before_iff, before_iff]
  omega

theorem pairwise_inOrder (edits : List Edit) :
    (inOrder edits).Pairwise fun a b => a.before b = true :=
  List.pairwise_mergeSort before_trans before_total edits

@[simp]
theorem mem_inOrder {edit : Edit} {edits : List Edit} : edit ∈ inOrder edits ↔ edit ∈ edits :=
  List.mem_mergeSort

/-- An edit is put in order behind those that it does not come before. -/
theorem inOrder_cons (first : Edit) (rest : List Edit) :
    inOrder (first :: rest) =
      (inOrder rest).filter (!first.before ·) ++ first :: (inOrder rest).filter (first.before ·) := by
  obtain ⟨low, high, hsorted, hrest, hlow⟩ :=
    List.mergeSort_cons before_trans before_total first rest
  have hpairs := pairwise_inOrder (first :: rest)
  rw [inOrder, hsorted, List.pairwise_append, List.pairwise_cons] at hpairs
  have hhigh : ∀ b ∈ high, first.before b = true := hpairs.2.1.1
  rw [inOrder, inOrder, hsorted, hrest]
  simp only [List.filter_append]
  rw [List.filter_eq_self.mpr hlow, List.filter_eq_self.mpr hhigh,
    List.filter_eq_nil_iff.mpr fun b hb => by simp [hhigh b hb],
    List.filter_eq_nil_iff.mpr fun b hb => by simpa using hlow b hb]
  simp

/-- **Edits that all come before others are put in order by themselves.** -/
theorem inOrder_append {edits more : List Edit}
    (h : ∀ a ∈ edits, ∀ b ∈ more, a.before b = true) :
    inOrder (edits ++ more) = inOrder edits ++ inOrder more := by
  induction edits with
  | nil => simp [inOrder]
  | cons first rest ih =>
    have hmore : ∀ b ∈ inOrder more, first.before b = true := fun b hb =>
      h first (.head _) b (mem_inOrder.mp hb)
    rw [List.cons_append, inOrder_cons, inOrder_cons, ih fun a ha => h a (.tail _ ha)]
    have hnone : (inOrder more).filter (!first.before ·) = [] :=
      List.filter_eq_nil_iff.mpr fun b hb => by simp [hmore b hb]
    simp only [List.filter_append, hnone, List.filter_eq_self.mpr hmore]
    simp

/-! ## Copying through edits -/

/-- Edits are gone through one part after the other. -/
theorem splice_append (source : Bytes) (position : Nat) (edits more : List Edit) :
    splice source position (edits ++ more) =
      (splice source position edits).bind fun (written, stop) =>
        (splice source stop more).map fun (written', stop') => (written ++ written', stop') := by
  induction edits generalizing position with
  | nil =>
    rcases hmore : splice source position more with failure | ⟨written, stop⟩ <;>
      simp [splice, Except.bind, Except.map, hmore]
  | cons edit rest ih =>
    simp only [List.cons_append, splice]
    split
    · rfl
    · split
      · rfl
      · rw [ih]
        rcases splice source edit.stop rest with failure | ⟨written, stop⟩
        · rfl
        · rcases hmore : splice source stop more with failure | ⟨written', stop'⟩ <;>
            simp [Except.bind, Except.map, hmore]

/-- Edits that are gone through lie between the two ends of what was copied. -/
theorem within_of_splice {source : Bytes} {position stop : Nat} {edits : List Edit} {written : Bytes}
    (hforward : ∀ edit ∈ edits, edit.start ≤ edit.stop)
    (h : splice source position edits = .ok (written, stop)) :
    position ≤ stop ∧ ∀ edit ∈ edits, position ≤ edit.start ∧ edit.stop ≤ stop := by
  induction edits generalizing position written with
  | nil =>
    obtain ⟨-, rfl⟩ := Prod.mk.inj (Except.ok.inj h)
    exact ⟨Nat.le_refl _, by simp⟩
  | cons edit rest ih =>
    rw [splice] at h
    split at h
    · cases h
    · rename_i hstart
      split at h
      · cases h
      · rcases hrest : splice source edit.stop rest with failure | ⟨written', stop'⟩
        · rw [hrest] at h
          cases h
        · rw [hrest] at h
          obtain ⟨-, rfl⟩ := Prod.mk.inj (Except.ok.inj h)
          obtain ⟨hle, hwithin⟩ := ih (fun other hother => hforward other (.tail _ hother)) hrest
          have hedit := hforward edit (.head _)
          refine ⟨by omega, List.forall_mem_cons.mpr ⟨by omega, fun other hother => ?_⟩⟩
          have := hwithin other hother
          omega

/-- **Edits that follow one another fail only at a text that cannot be written.** -/
theorem splice_eq_error_iff {source : Bytes} {position : Nat} {edits : List Edit}
    {failure : EditFailure} (hordered : edits.Pairwise fun a b => a.stop ≤ b.start)
    (hposition : ∀ edit ∈ edits, position ≤ edit.start) :
    splice source position edits = .error failure ↔
      failure = .unencodable ∧ ∃ edit ∈ edits, edit.text.encode? = none := by
  induction edits generalizing position with
  | nil => simp [splice]
  | cons edit rest ih =>
    obtain ⟨hnext, hordered⟩ := List.pairwise_cons.mp hordered
    rw [splice, if_neg (Nat.not_lt.mpr (hposition edit (.head _)))]
    simp only [List.mem_cons, exists_eq_or_imp]
    rcases htext : edit.text.encode? with _ | bytes
    · simp [eq_comm]
    · have hrest := ih hordered hnext
      rcases hsplice : splice source edit.stop rest with cause | written
      · simp [Except.map, ← hrest, hsplice]
      · simp [Except.map, ← hrest, hsplice]

/-- Copying from further back puts more of the source in front. -/
theorem splice_from (source : Bytes) {position : Nat} {first : Edit} (rest : List Edit)
    (h : position ≤ first.start) :
    splice source position (first :: rest) =
      (splice source first.start (first :: rest)).map fun (written, stop) =>
        (slice source position first.start ++ written, stop) := by
  rw [splice, splice, if_neg (Nat.not_lt.mpr h), if_neg (Nat.lt_irrefl _), slice_self]
  split
  · rfl
  · rcases splice source first.stop rest with failure | ⟨written, stop⟩
    · rfl
    · simp [Except.map]

/-! ## Merged edits -/

/-- What merging edits gives: a single edit stays as it is, and several become the one that writes what
they write. -/
theorem exists_of_merge {source : Bytes} {edits : List Edit} {fix : Edit}
    (h : merge source edits = .ok fix) :
    ∃ first rest, inOrder edits = first :: rest ∧
      (∀ edit ∈ edits, edit.start ≤ edit.stop ∧ edit.stop ≤ source.length) ∧
      (rest = [] ∧ fix = first ∨
        fix.start = first.start ∧ ∃ written,
          splice source first.start (first :: rest) = .ok (written, fix.stop) ∧
          fix.text.encode? = some written) := by
  rw [merge] at h
  rcases hordered : inOrder edits with _ | ⟨first, rest⟩
  · simp [hordered] at h
  · simp only [hordered] at h
    split at h
    · cases h
    · rename_i hrange
      refine ⟨first, rest, rfl, fun edit hedit => ?_, ?_⟩
      · have hin := List.find?_eq_none.mp hrange edit (hordered ▸ mem_inOrder.mpr hedit)
        simpa [inRange] using hin
      · split at h
        · rename_i hsingle
          exact .inl ⟨List.isEmpty_iff.mp hsingle, (Except.ok.inj h).symm⟩
        · split at h
          · cases h
          · rename_i written stop hsplice
            split at h
            · cases h
            · rename_i text htext
              obtain rfl := Except.ok.inj h
              refine .inr ⟨rfl, written, hsplice, ?_⟩
              rw [Text.encode?_ofChars, Utf8.decode_eq_ok_iff.mp htext]

/-- A merged fix spans its edits, none of which is reversed. -/
theorem within_of_merge {source : Bytes} {edits : List Edit} {fix : Edit}
    (h : merge source edits = .ok fix) :
    fix.start ≤ fix.stop ∧ ∀ edit ∈ edits, fix.start ≤ edit.start ∧ edit.start ≤ edit.stop ∧
      edit.stop ≤ fix.stop := by
  obtain ⟨first, rest, hordered, hrange, hmerged⟩ := exists_of_merge h
  have hmem : ∀ edit, edit ∈ edits ↔ edit ∈ first :: rest := by
    intro edit
    rw [← hordered, mem_inOrder]
  simp only [hmem] at hrange ⊢
  rcases hmerged with ⟨rfl, rfl⟩ | ⟨hstart, written, hsplice, -⟩
  · have hforward := (hrange fix (.head _)).1
    simpa using hforward
  · obtain ⟨hle, hwithin⟩ := within_of_splice (fun edit hedit => (hrange edit hedit).1) hsplice
    rw [hstart]
    exact ⟨hle, fun edit hedit =>
      ⟨(hwithin edit hedit).1, (hrange edit hedit).1, (hwithin edit hedit).2⟩⟩

/-- **A merged fix writes what its edits write**, from wherever before it the source is copied. -/
theorem splice_merge {source : Bytes} {edits : List Edit} {fix : Edit}
    (h : merge source edits = .ok fix) {position : Nat} (hposition : position ≤ fix.start) :
    splice source position (inOrder edits) = splice source position [fix] := by
  obtain ⟨first, rest, hordered, -, ⟨rfl, rfl⟩ | ⟨hstart, written, hsplice, htext⟩⟩ :=
    exists_of_merge h
  · rw [hordered]
  · rw [hordered, splice_from source rest (hstart ▸ hposition), hsplice, splice,
      if_neg (Nat.not_lt.mpr hposition), htext, hstart]
    simp [splice, Except.map]

/-- A merged fix comes before what starts behind it, edit by edit. -/
theorem before_of_merge {source : Bytes} {edits edits' : List Edit} {fix fix' : Edit}
    (h : merge source edits = .ok fix) (h' : merge source edits' = .ok fix')
    (hle : fix.stop ≤ fix'.start) : ∀ a ∈ edits, ∀ b ∈ edits', a.before b = true := by
  intro a ha b hb
  have hwithin := (within_of_merge h).2 a ha
  have hwithin' := (within_of_merge h').2 b hb
  rw [before_iff]
  omega

end Edit

/-! ## The fixes of a pass -/

/-- A report together with its fix, merged into one edit. -/
structure MergedFix (source : Bytes) where
  /-- the report -/
  report : Report
  /-- its edits as one -/
  edit : Edit
  /-- they can be merged, and this is what they give -/
  merge_eq : Edit.merge source report.edits = .ok edit

namespace MergedFix

variable {source : Bytes}

/-- The fix of a report, if its edits can be merged. -/
def ofReport? (source : Bytes) (report : Report) : Option (MergedFix source) :=
  match h : Edit.merge source report.edits with
  | .ok edit => some ⟨report, edit, h⟩
  | .error _ => none

theorem ofReport?_of_ok {report : Report} {edit : Edit}
    (h : Edit.merge source report.edits = .ok edit) :
    ofReport? source report = some ⟨report, edit, h⟩ := by
  rw [ofReport?]
  split
  · rename_i other hother
    obtain rfl := Except.ok.inj (hother.symm.trans h)
    rfl
  · rename_i hother
    cases hother.symm.trans h

theorem ofReport?_of_error {report : Report} {failure : EditFailure}
    (h : Edit.merge source report.edits = .error failure) : ofReport? source report = none := by
  rw [ofReport?]
  split
  · rename_i hother
    cases hother.symm.trans h
  · rfl

/-- Fixes are scanned in the order of their merged edits. -/
def before (a b : MergedFix source) : Bool :=
  a.edit.before b.edit

theorem forward (fix : MergedFix source) : fix.edit.start ≤ fix.edit.stop :=
  (Edit.within_of_merge fix.merge_eq).1

/-- Do the fixes follow one another? -/
def Apart (fixes : List (MergedFix source)) : Prop :=
  fixes.Pairwise fun a b => a.edit.stop ≤ b.edit.start

/-- All edits of fixes that follow one another are put in order fix by fix. -/
theorem inOrder_edits {fixes : List (MergedFix source)} (h : Apart fixes) :
    Edit.inOrder (fixes.flatMap (·.report.edits)) =
      fixes.flatMap fun fix => Edit.inOrder fix.report.edits := by
  induction fixes with
  | nil => simp [Edit.inOrder]
  | cons first rest ih =>
    obtain ⟨hnext, hrest⟩ := List.pairwise_cons.mp h
    rw [List.flatMap_cons, List.flatMap_cons, ← ih hrest]
    apply Edit.inOrder_append
    intro a ha b hb
    obtain ⟨fix, hfix, hb⟩ := List.mem_flatMap.mp hb
    exact Edit.before_of_merge first.merge_eq fix.merge_eq (hnext fix hfix) a ha b hb

/-- **Fixes that follow one another write what all their edits write.** -/
theorem splice_edits {fixes : List (MergedFix source)} (h : Apart fixes) {position : Nat}
    (hposition : ∀ fix ∈ fixes, position ≤ fix.edit.start) :
    Edit.splice source position (fixes.flatMap fun fix => Edit.inOrder fix.report.edits) =
      Edit.splice source position (fixes.map (·.edit)) := by
  induction fixes generalizing position with
  | nil => rfl
  | cons first rest ih =>
    obtain ⟨hnext, hrest⟩ := List.pairwise_cons.mp h
    have hfirst := hposition first (.head _)
    have hcons : (first :: rest).map (·.edit) = [first.edit] ++ rest.map (·.edit) := rfl
    rw [List.flatMap_cons, hcons, Edit.splice_append, Edit.splice_append,
      Edit.splice_merge first.merge_eq hfirst]
    -- the scan goes on from the end of the first fix, however it was written
    have hone : ∀ written stop, Edit.splice source position [first.edit] = .ok (written, stop) →
        stop = first.edit.stop := by
      intro written stop hsplice
      rw [Edit.splice, if_neg (Nat.not_lt.mpr hfirst)] at hsplice
      split at hsplice
      · cases hsplice
      · exact (Prod.mk.inj (Except.ok.inj hsplice)).2.symm
    rcases hsplice : Edit.splice source position [first.edit] with failure | ⟨written, stop⟩
    · rfl
    · obtain rfl := hone written stop hsplice
      simp only [Except.bind, ih hrest hnext]

theorem inOrder_map_edit {fixes : List (MergedFix source)} (h : Apart fixes) :
    Edit.inOrder (fixes.map (·.edit)) = fixes.map (·.edit) := by
  refine Edit.inOrder_of_pairwise (List.pairwise_map.mpr (List.Pairwise.imp ?_ h))
  intro a b hle
  have ha := a.forward
  have hb := b.forward
  rw [Edit.before_iff]
  omega

/-- All edits of fixes that follow one another are applied like the merged fixes. -/
theorem apply_edits {fixes : List (MergedFix source)} (h : Apart fixes) :
    Edit.apply source (fixes.flatMap (·.report.edits)) = Edit.apply source (fixes.map (·.edit)) := by
  rw [Edit.apply, Edit.apply, inOrder_edits h, splice_edits h fun _ _ => Nat.zero_le _,
    inOrder_map_edit h]

/-- Nothing but a text that cannot be written keeps them from being applied. -/
theorem apply_edits_eq_error_iff {fixes : List (MergedFix source)} (h : Apart fixes)
    {failure : EditFailure} :
    Edit.apply source (fixes.flatMap (·.report.edits)) = .error failure ↔
      failure = .unencodable ∧ ∃ fix ∈ fixes, fix.edit.text.encode? = none := by
  have hmem : (∃ edit ∈ fixes.map (·.edit), edit.text.encode? = none) ↔
      ∃ fix ∈ fixes, fix.edit.text.encode? = none := by
    constructor
    · rintro ⟨edit, hedit, htext⟩
      obtain ⟨fix, hfix, rfl⟩ := List.mem_map.mp hedit
      exact ⟨fix, hfix, htext⟩
    · rintro ⟨fix, hfix, htext⟩
      exact ⟨_, List.mem_map_of_mem hfix, htext⟩
  rw [apply_edits h, Edit.apply, inOrder_map_edit h, ← hmem,
    ← Edit.splice_eq_error_iff (List.pairwise_map.mpr h) fun _ _ => Nat.zero_le _]
  rcases hsplice : Edit.splice source 0 (fixes.map (·.edit)) with cause | written
  · rw [hsplice]
    simp [Except.map]
  · rw [hsplice]
    simp [Except.map]

/-- **One scan over fixes in order** parts them into those that are accepted and those that are skipped;
a skipped one starts before the end of what was accepted last, or inside a fix that is accepted. -/
theorem exists_accept (last : Nat) {fixes : List (MergedFix source)}
    (hordered : fixes.Pairwise fun a b => a.before b = true) :
    ∃ accepted skipped : List (MergedFix source), (accepted ++ skipped).Perm fixes ∧
      accepted.map (·.edit) = Batch.accept last (fixes.map (·.edit)) ∧
      (∀ fix ∈ accepted, last ≤ fix.edit.start) ∧ Apart accepted ∧
      ∀ fix ∈ skipped, fix.edit.start < last ∨
        ∃ other ∈ accepted, other.edit.start ≤ fix.edit.start ∧ fix.edit.start < other.edit.stop := by
  induction fixes generalizing last with
  | nil => exact ⟨[], [], .refl _, rfl, by simp, .nil, by simp⟩
  | cons first rest ih =>
    obtain ⟨hfirst, hordered⟩ := List.pairwise_cons.mp hordered
    by_cases hskip : first.edit.start < last
    · obtain ⟨accepted, skipped, hperm, hmap, hstart, hapart, hskipped⟩ := ih last hordered
      refine ⟨accepted, first :: skipped, List.perm_middle.trans (hperm.cons first), ?_, hstart,
        hapart, List.forall_mem_cons.mpr ⟨.inl hskip, hskipped⟩⟩
      rw [List.map_cons, Batch.accept, if_pos hskip, hmap]
    · obtain ⟨accepted, skipped, hperm, hmap, hstart, hapart, hskipped⟩ :=
        ih first.edit.stop hordered
      have hforward := first.forward
      refine ⟨first :: accepted, skipped, hperm.cons first, ?_, ?_,
        List.pairwise_cons.mpr ⟨hstart, hapart⟩, ?_⟩
      · rw [List.map_cons, List.map_cons, Batch.accept, if_neg hskip, hmap]
      · refine List.forall_mem_cons.mpr ⟨Nat.not_lt.mp hskip, fun fix hfix => ?_⟩
        have := hstart fix hfix
        omega
      · intro fix hfix
        rcases hskipped fix hfix with hlt | ⟨other, hother, hinside⟩
        · -- it comes behind the fix that was accepted last, and starts before that one ends
          have hmem : fix ∈ rest := hperm.mem_iff.mp (List.mem_append_right _ hfix)
          have hbefore := Edit.before_iff.mp (hfirst fix hmem)
          exact .inr ⟨first, .head _, by omega, hlt⟩
        · exact .inr ⟨other, .tail _ hother, hinside⟩

end MergedFix

/-! ## The pass -/

namespace Batch

/-- Do the edits of a report's fix not fit together? -/
def inConflict (source : Bytes) (report : Report) : Bool :=
  report.fixable &&
    match Edit.merge source report.edits with
    | .error (.conflict _) => true
    | _ => false

theorem merged_ne_conflict (source : Bytes) (cause : Conflict) (reports : List Report) :
    merged source reports ≠ .error (.conflict cause) := by
  induction reports with
  | nil =>
    intro h
    cases h
  | cons report rest ih =>
    rw [merged]
    split
    · split
      · rcases hrest : merged source rest with failure | fixes
        · intro h
          obtain rfl : failure = .conflict cause := Except.error.inj h
          exact ih hrest
        · intro h
          cases h
      · exact ih
      · rename_i hother _
        intro h
        obtain rfl := Except.error.inj h
        exact hother cause rfl
    · exact ih

/-- **No report is lost or counted twice**: each has a merged fix, or none at all, or one in conflict. -/
theorem merged_eq_ok {source : Bytes} {reports : List Report} {fixes : List Edit}
    (h : merged source reports = .ok fixes) :
    fixes = (reports.filterMap (MergedFix.ofReport? source)).map (·.edit) ∧
    (reports.filterMap (MergedFix.ofReport? source)).length + reports.countP (!·.fixable) +
      reports.countP (inConflict source) = reports.length := by
  induction reports generalizing fixes with
  | nil =>
    obtain rfl := Except.ok.inj h
    exact ⟨rfl, rfl⟩
  | cons report rest ih =>
    rw [merged] at h
    simp only [List.filterMap_cons, List.countP_cons, List.length_cons]
    by_cases hfixable : report.fixable = true
    · rw [if_pos hfixable] at h
      rcases hmerge : Edit.merge source report.edits with (cause | _ | _) | edit
      · simp only [hmerge] at h
        obtain ⟨hfixes, hcount⟩ := ih h
        have hconflict : inConflict source report = true := by simp [inConflict, hfixable, hmerge]
        simp only [MergedFix.ofReport?_of_error hmerge, hfixable, hconflict, Bool.not_true,
          Bool.false_eq_true, if_false, if_true]
        exact ⟨hfixes, by omega⟩
      · simp [hmerge] at h
      · simp [hmerge] at h
      · simp only [hmerge] at h
        rcases hrest : merged source rest with failure | others
        · simp [hrest, Except.map] at h
        · obtain ⟨hfixes, hcount⟩ := ih hrest
          have hfits : inConflict source report = false := by simp [inConflict, hmerge]
          rw [hrest] at h
          obtain rfl := Except.ok.inj h
          simp only [MergedFix.ofReport?_of_ok hmerge, hfixable, hfits, Bool.not_true,
            Bool.false_eq_true, if_false, List.map_cons, List.length_cons]
          exact ⟨by rw [hfixes], by omega⟩
    · rw [if_neg hfixable] at h
      obtain ⟨hfixes, hcount⟩ := ih h
      have hnone : report.edits = [] := by simpa [Report.fixable] using hfixable
      have hmerge : Edit.merge source report.edits = .error (.conflict .empty) := by
        simp [hnone, Edit.merge, Edit.inOrder]
      have hfits : inConflict source report = false := by simp [inConflict, hfixable]
      simp only [MergedFix.ofReport?_of_error hmerge, hfixable, hfits, Bool.not_false,
        Bool.false_eq_true, if_false, if_true]
      exact ⟨hfixes, by omega⟩

/-- Fixes are put in order like their merged edits. -/
theorem map_edit_mergeSort {source : Bytes} (fixes : List (MergedFix source)) :
    (fixes.mergeSort MergedFix.before).map (·.edit) = Edit.inOrder (fixes.map (·.edit)) :=
  List.map_mergeSort (f := MergedFix.edit) fun _ _ _ _ => rfl

/-- What a pass comes to once the fixes are merged: it accepts some of them, skips the others, and applies
all edits of the reports whose fixes it accepts. -/
theorem exists_accepted {source : Bytes} {reports : List Report} {fixes : List Edit}
    (h : merged source reports = .ok fixes) :
    ∃ accepted skipped : List (MergedFix source),
      (accepted ++ skipped).Perm (reports.filterMap (MergedFix.ofReport? source)) ∧
      accepted.map (·.edit) = accept 0 (Edit.inOrder fixes) ∧ MergedFix.Apart accepted ∧
      (∀ fix ∈ skipped, ∃ other ∈ accepted,
        other.edit.start ≤ fix.edit.start ∧ fix.edit.start < other.edit.stop) ∧
      apply source reports =
        (Edit.apply source (accepted.flatMap (·.report.edits))).map fun output =>
          ⟨output, accepted.length, skipped.length⟩ := by
  obtain ⟨hfixes, -⟩ := merged_eq_ok h
  have hordered : ((reports.filterMap (MergedFix.ofReport? source)).mergeSort
      MergedFix.before).Pairwise fun a b => a.before b = true :=
    List.pairwise_mergeSort (fun a b c => Edit.before_trans a.edit b.edit c.edit)
      (fun a b => Edit.before_total a.edit b.edit) _
  obtain ⟨accepted, skipped, hperm, hmap, -, hapart, hskipped⟩ := MergedFix.exists_accept 0 hordered
  have hperm' := hperm.trans (List.mergeSort_perm _ _)
  have hskip : fixes.length - accepted.length = skipped.length := by
    have hlength := hperm'.length_eq
    rw [List.length_append] at hlength
    rw [hfixes, List.length_map]
    omega
  rw [map_edit_mergeSort, ← hfixes] at hmap
  refine ⟨accepted, skipped, hperm', hmap, hapart, fun fix hfix => ?_, ?_⟩
  · exact (hskipped fix hfix).resolve_left (Nat.not_lt_zero _)
  · rw [MergedFix.apply_edits hapart, ← hskip]
    simp only [apply, h, ← hmap, List.length_map]

/-- **A fix is applied as a whole or not at all.** A pass over any reports never ends in a conflict. When it
ends well, every report is applied, skipped, without a fix, or has one whose edits are in conflict. The
fixes that are accepted follow one another, and each one that is skipped starts inside an accepted one, so
it could not have been added. And the output is the source with all edits of the accepted reports applied,
fix by fix, and no edit of any other report. -/
theorem apply_all_or_nothing (source : Bytes) (reports : List Report) :
    (∀ cause, apply source reports ≠ .error (.conflict cause)) ∧
    ∀ outcome, apply source reports = .ok outcome →
      outcome.applied + outcome.skipped + reports.countP (!·.fixable) +
        reports.countP (inConflict source) = reports.length ∧
      ∃ fixes, merged source reports = .ok fixes ∧
        ∃ accepted skipped : List (MergedFix source),
          (accepted ++ skipped).Perm (reports.filterMap (MergedFix.ofReport? source)) ∧
          accepted.map (·.edit) = accept 0 (Edit.inOrder fixes) ∧
          accepted.length = outcome.applied ∧ skipped.length = outcome.skipped ∧
          (accepted.Pairwise fun a b => a.edit.stop ≤ b.edit.start) ∧
          (∀ fix ∈ skipped, ∃ other ∈ accepted,
            other.edit.start ≤ fix.edit.start ∧ fix.edit.start < other.edit.stop) ∧
          Edit.apply source (accepted.flatMap (·.report.edits)) = .ok outcome.output := by
  rcases hmerged : merged source reports with failure | fixes
  · have happly : apply source reports = .error failure := by simp [apply, hmerged]
    rw [happly]
    refine ⟨fun cause h => ?_, fun outcome h => by cases h⟩
    obtain rfl := Except.error.inj h
    exact merged_ne_conflict source cause reports hmerged
  · obtain ⟨accepted, skipped, hperm, hmap, hapart, hskipped, happly⟩ := exists_accepted hmerged
    obtain ⟨-, hcount⟩ := merged_eq_ok hmerged
    rw [← hperm.length_eq, List.length_append] at hcount
    rw [happly]
    rcases hwrite : Edit.apply source (accepted.flatMap (·.report.edits)) with failure | output
    · rw [hwrite]
      refine ⟨fun cause h => ?_, fun outcome h => by cases h⟩
      obtain rfl : failure = .conflict cause := Except.error.inj h
      cases ((MergedFix.apply_edits_eq_error_iff hapart).mp hwrite).1
    · rw [hwrite]
      refine ⟨fun cause h => (by cases h), fun outcome h => ?_⟩
      obtain rfl := Except.ok.inj h
      exact ⟨hcount, fixes, rfl, accepted, skipped, hperm, hmap, rfl, rfl, hapart, hskipped, hwrite⟩

/-! ## Fixes that touch, and one inside another -/

/-- A source of six bytes. -/
def touchSource : Bytes :=
  Utf8.encode "abcdef".toList

/-- A report with this fix. -/
def touchReport (edits : List Edit) : Report where
  ruleId := "touch"
  path := "a.ts"
  message := "touch"
  loc := ⟨1, 1, 1, 1⟩
  nodeSpan := ⟨1, 1, 1, 1⟩
  edits := edits

/-- A fix of two edits, one inside it, one that inserts where the first one ends, and none. -/
def touchReports : List Report :=
  [touchReport [⟨0, 1, .ofString "X"⟩, ⟨3, 3, .ofString "i"⟩], touchReport [⟨1, 2, .ofString "y"⟩],
    touchReport [⟨3, 3, .ofString "j"⟩], touchReport []]

/-- The fix that touches the first one is applied with it, and the one inside it is skipped. -/
theorem apply_touch :
    apply touchSource touchReports = .ok ⟨Utf8.encode "Xbcijdef".toList, 2, 1⟩ := by
  have hapart : Edit.Apart [⟨0, 1, .ofString "X"⟩, ⟨3, 3, .ofString "i"⟩] :=
    ⟨by decide, by decide, by decide⟩
  have hbetween : Edit.slice touchSource 1 3 = Utf8.encode "bc".toList := by decide
  obtain ⟨fix, hmerge, hstart, hstop, htext, hrewrite⟩ :=
    Edit.merge_pair hapart (by decide) ⟨_, hbetween⟩
  have hinner : Edit.merge touchSource [⟨1, 2, .ofString "y"⟩] = .ok _ :=
    Edit.merge_single (by decide) (by decide)
  have hlast : Edit.merge touchSource [⟨3, 3, .ofString "j"⟩] = .ok _ :=
    Edit.merge_single (by decide) (by decide)
  dsimp only at hstart hstop
  have hmerged : merged touchSource touchReports =
      .ok [fix, ⟨1, 2, .ofString "y"⟩, ⟨3, 3, .ofString "j"⟩] := by
    simp [merged, touchReports, touchReport, Report.fixable, hmerge, hinner, hlast, Except.map]
  have haccept : accept 0 (Edit.inOrder [fix, ⟨1, 2, .ofString "y"⟩, ⟨3, 3, .ofString "j"⟩]) =
      [fix, ⟨3, 3, .ofString "j"⟩] := by
    rw [Edit.inOrder_of_pairwise (by simp [Edit.before, hstart])]
    simp [accept, hstop]
  have hfollow : Edit.Apart [fix, ⟨3, 3, .ofString "j"⟩] :=
    ⟨by simp [hstop], by simp [hstart, hstop], by simpa using ⟨htext, by decide⟩⟩
  have houtput : Edit.rewrite touchSource 0
      [⟨0, 1, .ofString "X"⟩, ⟨3, 3, .ofString "i"⟩, ⟨3, 3, .ofString "j"⟩] =
        Utf8.encode "Xbcijdef".toList := by decide
  rw [apply_of_merged hmerged haccept hfollow, hrewrite, houtput]
  rfl

theorem apply_touch_all_or_nothing :
    apply touchSource touchReports = .ok ⟨Utf8.encode "Xbcijdef".toList, 2, 1⟩ ∧
    2 + 1 + touchReports.countP (!·.fixable) + touchReports.countP (inConflict touchSource) =
      touchReports.length ∧
    ∃ accepted : List (MergedFix touchSource), accepted.length = 2 ∧
      Edit.apply touchSource (accepted.flatMap (·.report.edits)) =
        .ok (Utf8.encode "Xbcijdef".toList) := by
  obtain ⟨hcount, fixes, -, accepted, skipped, -, -, haccepted, -, -, -, hwrite⟩ :=
    (apply_all_or_nothing touchSource touchReports).2 _ apply_touch
  exact ⟨apply_touch, hcount, accepted, haccepted, hwrite⟩

end Batch

end LoggerLint
