import LoggerLint.Proofs.Fix.Atomic

/-!
# Merging agrees with applying

Edits are applied by a scan from the start of the source, and the edits of one fix are merged by a scan from
the start of the first of them, with a text for its result. `merge_agrees_with_apply` says that the two go
together:

* edits in range conflict when they are merged exactly when they conflict when they are applied, and over the
  same edit;
* a merged fix spans from the least start to the greatest end, which is the end of the last edit in order;
* it is applied like the edits it was merged from;
* no edits at all, or one that is reversed or out of range, are always a conflict.
-/

namespace LoggerLint.Edit

variable {source : Bytes} {edits rest : List Edit} {first : Edit}

/-! ## The scan -/

/-- A scan ends where the last edit ends. -/
theorem stop_of_splice {position stop : Nat} {written : Bytes}
    (h : splice source position edits = .ok (written, stop)) :
    stop = (edits.getLast?.map (·.stop)).getD position := by
  induction edits generalizing position written with
  | nil => exact (Prod.mk.inj (Except.ok.inj h)).2.symm
  | cons edit rest ih =>
    rw [splice] at h
    split at h
    · cases h
    · split at h
      · cases h
      · rcases hrest : splice source edit.stop rest with failure | ⟨written', stop'⟩
        · rw [hrest] at h
          cases h
        · rw [hrest] at h
          obtain ⟨-, rfl⟩ := Prod.mk.inj (Except.ok.inj h)
          rw [ih hrest, List.getLast?_cons]
          rcases rest.getLast? with _ | last
          · rfl
          · rfl

/-- Applying edits fails as a scan from the first of them does. -/
theorem apply_eq_error_iff (hordered : inOrder edits = first :: rest) {failure : EditFailure} :
    apply source edits = .error failure ↔
      splice source first.start (first :: rest) = .error failure := by
  rw [apply, hordered, splice_from source rest (Nat.zero_le _)]
  rcases hsplice : splice source first.start (first :: rest) with cause | written
  · simp [Except.map]
  · simp [Except.map]

/-- A single edit does not conflict with anything. -/
theorem splice_single_ne_conflict (source : Bytes) (edit : Edit) (cause : Conflict) :
    splice source edit.start [edit] ≠ .error (.conflict cause) := by
  rw [splice, if_neg (Nat.lt_irrefl _)]
  rcases edit.text.encode? with _ | bytes
  · simp
  · simp [splice, Except.map]

/-! ## Conflicts -/

/-- Several edits in range are merged by the scan from the first of them. -/
theorem merge_of_inRange (hordered : inOrder edits = first :: rest) (hrest : rest ≠ [])
    (hrange : ∀ edit ∈ edits, edit.inRange source.length = true) :
    merge source edits =
      match splice source first.start (first :: rest) with
      | .error failure => .error failure
      | .ok (written, stop) =>
        match Utf8.decode written with
        | .error _ => .error .undecodable
        | .ok text => .ok ⟨first.start, stop, .ofChars text⟩ := by
  have hfind : (inOrder edits).find? (!·.inRange source.length) = none := by
    refine List.find?_eq_none.mpr fun edit hedit => ?_
    simp [hrange edit (mem_inOrder.mp hedit)]
  rw [hordered] at hfind
  rcases hsplice : splice source first.start (first :: rest) with failure | ⟨written, stop⟩
  · simp [merge, hordered, hfind, hrest, hsplice]
  · rcases hdecode : Utf8.decode written with offset | text
    · simp [merge, hordered, hfind, hrest, hsplice, hdecode]
    · simp [merge, hordered, hfind, hrest, hsplice, hdecode]

theorem exists_inOrder (hne : edits ≠ []) : ∃ first rest, inOrder edits = first :: rest := by
  refine List.exists_cons_of_ne_nil fun hnil => hne ?_
  exact List.Perm.eq_nil (hnil ▸ (List.mergeSort_perm edits before).symm)

/-- A single edit in range is merged into itself. -/
theorem merge_of_inOrder_single (hordered : inOrder edits = [first])
    (hrange : ∀ edit ∈ edits, edit.inRange source.length = true) : merge source edits = .ok first := by
  have hperm : edits.Perm [first] := by
    rw [← hordered]
    exact (List.mergeSort_perm edits before).symm
  obtain rfl := List.perm_singleton.mp hperm
  have hfirst := hrange first (.head _)
  simp only [inRange, Bool.and_eq_true, decide_eq_true_eq] at hfirst
  exact merge_single hfirst.1 hfirst.2

/-- Edits in range that fail to be merged fail alike when they are applied, unless they give no text. -/
theorem apply_eq_error_of_merge {failure : EditFailure} (hne : edits ≠ [])
    (hrange : ∀ edit ∈ edits, edit.inRange source.length = true) (htext : failure ≠ .undecodable)
    (h : merge source edits = .error failure) : apply source edits = .error failure := by
  obtain ⟨first, rest, hordered⟩ := exists_inOrder hne
  by_cases hrest : rest = []
  · subst hrest
    cases (merge_of_inOrder_single hordered hrange).symm.trans h
  · rw [merge_of_inRange hordered hrest hrange] at h
    rw [apply_eq_error_iff hordered]
    split at h
    · rename_i hsplice
      rw [← Except.error.inj h, hsplice]
    · split at h
      · exact absurd (Except.error.inj h).symm htext
      · cases h

/-- **Edits in range conflict when merged exactly when they conflict when applied.** -/
theorem merge_eq_conflict_iff (hne : edits ≠ [])
    (hrange : ∀ edit ∈ edits, edit.inRange source.length = true) (cause : Conflict) :
    merge source edits = .error (.conflict cause) ↔ apply source edits = .error (.conflict cause) := by
  refine ⟨apply_eq_error_of_merge hne hrange (by simp), fun h => ?_⟩
  obtain ⟨first, rest, hordered⟩ := exists_inOrder hne
  rw [apply_eq_error_iff hordered] at h
  by_cases hrest : rest = []
  · subst hrest
    exact absurd h (splice_single_ne_conflict source first cause)
  · rw [merge_of_inRange hordered hrest hrange, h]

/-- An edit that is reversed or out of range is told as a conflict. -/
theorem merge_eq_outside (h : ∃ edit ∈ edits, edit.inRange source.length = false) :
    ∃ edit ∈ edits, edit.inRange source.length = false ∧
      merge source edits = .error (.conflict (.outside edit.start edit.stop)) := by
  obtain ⟨edit, hedit, hout⟩ := h
  rcases hfind : (inOrder edits).find? (!·.inRange source.length) with _ | found
  · have hin := List.find?_eq_none.mp hfind edit (mem_inOrder.mpr hedit)
    simp [hout] at hin
  · refine ⟨found, mem_inOrder.mp (List.mem_of_find?_eq_some hfind), ?_, ?_⟩
    · simpa using List.find?_some hfind
    · rcases hordered : inOrder edits with _ | ⟨first, rest⟩
      · simp [hordered] at hfind
      · rw [hordered] at hfind
        simp only [merge, hordered, hfind]

/-! ## The merged fix -/

variable {fix : Edit}

/-- A merged fix ends where the last of its edits does. -/
theorem getLast?_of_merge (h : merge source edits = .ok fix) :
    (inOrder edits).getLast?.map (·.stop) = some fix.stop := by
  obtain ⟨first, rest, hordered, -, ⟨rfl, rfl⟩ | ⟨-, written, hsplice, -⟩⟩ := exists_of_merge h
  · rw [hordered]
    rfl
  · rw [hordered, stop_of_splice hsplice, List.getLast?_cons]
    rfl

/-- A merged fix starts where the first of its edits does. -/
theorem head?_of_merge (h : merge source edits = .ok fix) :
    (inOrder edits).head?.map (·.start) = some fix.start := by
  obtain ⟨first, rest, hordered, -, ⟨rfl, rfl⟩ | ⟨hstart, -⟩⟩ := exists_of_merge h
  · rw [hordered]
    rfl
  · rw [hordered, hstart]
    rfl

/-- **A merged fix spans its edits**: from the least start to the greatest end. -/
theorem span_of_merge (h : merge source edits = .ok fix) :
    (edits.map (·.start)).min? = some fix.start ∧ (edits.map (·.stop)).max? = some fix.stop := by
  obtain ⟨-, hwithin⟩ := within_of_merge h
  obtain ⟨first, hfirst, hstart⟩ := Option.map_eq_some_iff.mp (head?_of_merge h)
  obtain ⟨last, hlast, hstop⟩ := Option.map_eq_some_iff.mp (getLast?_of_merge h)
  rw [List.min?_eq_some_iff, List.max?_eq_some_iff]
  refine ⟨⟨?_, ?_⟩, ?_, ?_⟩
  · rw [← hstart]
    exact List.mem_map_of_mem (mem_inOrder.mp (List.mem_of_mem_head? hfirst))
  · intro start hmem
    obtain ⟨edit, hedit, rfl⟩ := List.mem_map.mp hmem
    exact (hwithin edit hedit).1
  · rw [← hstop]
    exact List.mem_map_of_mem (mem_inOrder.mp (List.mem_of_mem_getLast? hlast))
  · intro stop hmem
    obtain ⟨edit, hedit, rfl⟩ := List.mem_map.mp hmem
    exact (hwithin edit hedit).2.2

/-- **A merged fix is applied like its edits.** -/
theorem apply_merge (h : merge source edits = .ok fix) : apply source [fix] = apply source edits := by
  rw [apply, apply, splice_merge h (Nat.zero_le _), inOrder_of_pairwise (List.pairwise_singleton _ _)]

/-- **Merging agrees with applying.** Take edits, none of which is reversed or ends past the source. They
conflict when they are merged exactly when they conflict when they are applied, with the same words. What they
are merged into starts at the least start and ends where the last of them in order ends, which is the greatest
end; and it is applied like the edits themselves, be the outcome bytes or a text that cannot be written. No
edits at all are a conflict, and so are edits one of which is reversed or ends past the source. -/
theorem merge_agrees_with_apply (source : Bytes) (edits : List Edit) :
    (edits ≠ [] → (∀ edit ∈ edits, edit.start ≤ edit.stop ∧ edit.stop ≤ source.length) →
      (∀ cause, merge source edits = .error (.conflict cause) ↔
        apply source edits = .error (.conflict cause)) ∧
      ∀ fix, merge source edits = .ok fix →
        (edits.map (·.start)).min? = some fix.start ∧
        (inOrder edits).getLast?.map (·.stop) = some fix.stop ∧
        (edits.map (·.stop)).max? = some fix.stop ∧
        apply source [fix] = apply source edits) ∧
    (edits = [] → merge source edits = .error (.conflict .empty)) ∧
    ((∃ edit ∈ edits, edit.stop < edit.start ∨ source.length < edit.stop) →
      ∃ edit ∈ edits, (edit.stop < edit.start ∨ source.length < edit.stop) ∧
        merge source edits = .error (.conflict (.outside edit.start edit.stop))) := by
  have hout : ∀ edit : Edit, edit.inRange source.length = false ↔
      edit.stop < edit.start ∨ source.length < edit.stop := by
    intro edit
    simp only [inRange, Bool.and_eq_false_iff, decide_eq_false_iff_not, Nat.not_le]
  refine ⟨fun hne hrange => ⟨?_, fun fix h => ?_⟩, ?_, ?_⟩
  · refine merge_eq_conflict_iff hne fun edit hedit => ?_
    simpa [inRange] using hrange edit hedit
  · obtain ⟨hstart, hstop⟩ := span_of_merge h
    exact ⟨hstart, getLast?_of_merge h, hstop, apply_merge h⟩
  · rintro rfl
    simp [merge, inOrder]
  · simp only [← hout]
    exact merge_eq_outside

/-! ## Edits that touch, in no order -/

/-- A source of six bytes, two of which are one character. -/
def touchingSource : Bytes :=
  Utf8.encode "aébcd".toList

/-- An insertion and a replacement at one offset, and before them one that goes behind a gap. -/
def touchingEdits : List Edit :=
  [⟨4, 5, .ofString "X"⟩, ⟨1, 1, .ofString "i"⟩, ⟨1, 3, .ofString "y"⟩]

/-- The same edits in order. -/
def touchingOrder : List Edit :=
  [⟨1, 1, .ofString "i"⟩, ⟨1, 3, .ofString "y"⟩, ⟨4, 5, .ofString "X"⟩]

theorem inOrder_touchingEdits : inOrder touchingEdits = touchingOrder := by
  have hnil : inOrder [] = [] := List.mergeSort_nil
  rw [touchingEdits, inOrder_cons, inOrder_cons, inOrder_cons, hnil]
  rfl

/-- They are merged into one, the gap is carried over, and one that ends past the source is a conflict. -/
theorem merge_agrees_touching :
    touchingEdits ≠ [] ∧
    (∀ edit ∈ touchingEdits, edit.start ≤ edit.stop ∧ edit.stop ≤ touchingSource.length) ∧
    merge touchingSource touchingEdits = .ok ⟨1, 5, .ofString "iybX"⟩ ∧
    (touchingEdits.map (·.start)).min? = some 1 ∧ (touchingEdits.map (·.stop)).max? = some 5 ∧
    apply touchingSource [⟨1, 5, .ofString "iybX"⟩] = apply touchingSource touchingEdits ∧
    apply touchingSource touchingEdits = .ok (Utf8.encode "aiybXd".toList) ∧
    merge touchingSource [] = .error (.conflict .empty) ∧
    ∃ cause, merge touchingSource [⟨2, 7, []⟩] = .error (.conflict cause) := by
  have hne : touchingEdits ≠ [] := by decide
  have hrange : ∀ edit ∈ touchingEdits, edit.start ≤ edit.stop ∧ edit.stop ≤ touchingSource.length := by
    decide
  have hmerge : merge touchingSource touchingEdits = .ok ⟨1, 5, .ofString "iybX"⟩ := by
    have hsplice : splice touchingSource 1 touchingOrder = .ok (Utf8.encode "iybX".toList, 5) := by rfl
    have hdecode : Utf8.decode (Utf8.encode "iybX".toList) = .ok "iybX".toList :=
      Utf8.decode_eq_ok_iff.mpr rfl
    rw [touchingOrder] at hsplice
    rw [merge_of_inRange inOrder_touchingEdits (List.cons_ne_nil _ _) (by decide), hsplice]
    simp only [hdecode]
    rfl
  have happly : apply touchingSource touchingEdits = .ok (Utf8.encode "aiybXd".toList) := by
    rw [apply, inOrder_touchingEdits]
    rfl
  obtain ⟨hstart, -, hstop, hagrees⟩ :=
    ((merge_agrees_with_apply touchingSource touchingEdits).1 hne hrange).2 _ hmerge
  obtain ⟨edit, -, -, hout⟩ := (merge_agrees_with_apply touchingSource [⟨2, 7, []⟩]).2.2
    ⟨_, .head _, .inr (by decide)⟩
  exact ⟨hne, hrange, hmerge, hstart, hstop, hagrees, happly,
    (merge_agrees_with_apply touchingSource []).2.1 rfl, _, hout⟩

end LoggerLint.Edit
