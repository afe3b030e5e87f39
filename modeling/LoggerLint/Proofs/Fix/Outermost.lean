import LoggerLint.Proofs.Console.Layout
import LoggerLint.Proofs.Fix.Patch

/-!
# One pass over the reports of a file

The fix of a report replaces a call, and calls may stand inside one another. A pass over the reports of
a well-formed tree drops no fix, applies those of the `outermost` calls, and leaves the others for a
later pass. The first call is always an outermost one, so the prologue that goes with it is never lost,
although its fix stretches from the prologue's place up to the end of the call.

What a pass does to such a tree rests on two facts: the scan over fixes in order keeps those of the
outermost calls (`accept_callEdits`), and the fix of every report is merged (`exists_merge_lead`).
-/

namespace LoggerLint.Console

open Utf8 (Boundary encode)

/-! ## Outermost calls -/

/-- The span of a call lies inside that of another, and is another one. -/
def Call.Encloses (outer inner : Call) : Prop :=
  outer.node.start ≤ inner.node.start ∧ inner.node.stop ≤ outer.node.stop ∧
    (outer.node.start < inner.node.start ∨ inner.node.stop < outer.node.stop)

instance (outer inner : Call) : Decidable (outer.Encloses inner) :=
  inferInstanceAs (Decidable (_ ∧ _ ∧ (_ ∨ _)))

/-- No other call of a list holds this one. -/
def Outermost (found : List Call) (call : Call) : Prop :=
  ∀ other ∈ found, ¬ other.Encloses call

instance (found : List Call) (call : Call) : Decidable (Outermost found call) :=
  inferInstanceAs (Decidable (∀ other ∈ found, ¬ other.Encloses call))

/-- The calls of a list that no other one holds. -/
def outermost (found : List Call) : List Call :=
  found.filter fun call => Outermost found call

/-- Calls in source order: none is empty, and a later one stands inside an earlier one or behind it. -/
structure InOrder (found : List Call) : Prop where
  /-- no call is empty -/
  nonempty : ∀ call ∈ found, call.node.start < call.node.stop
  /-- each call starts before the later ones, which it holds or precedes -/
  ordered : found.Pairwise fun a b => a.node.start < b.node.start ∧
    (b.node.stop ≤ a.node.stop ∨ a.node.stop ≤ b.node.start)

theorem InOrder.tail {call : Call} {rest : List Call} (h : InOrder (call :: rest)) : InOrder rest :=
  ⟨fun other hother => h.nonempty other (.tail _ hother), (List.pairwise_cons.mp h.ordered).2⟩

/-- A call that stands in front is held by none that comes later. -/
theorem InOrder.not_encloses_first {call other : Call} {rest : List Call}
    (h : InOrder (call :: rest)) (hother : other ∈ call :: rest) : ¬ other.Encloses call := by
  rintro ⟨hstart, hstop, hproper⟩
  rcases List.mem_cons.mp hother with rfl | hother
  · omega
  · have hlt := ((List.pairwise_cons.mp h.ordered).1 other hother).1
    omega

/-- A later call stands behind an earlier one exactly when it is not held by it. -/
theorem InOrder.stop_le_start_iff {call other : Call} {rest : List Call} (h : InOrder (call :: rest))
    (hother : other ∈ rest) : call.node.stop ≤ other.node.start ↔ ¬ call.Encloses other := by
  obtain ⟨hlt, hnested⟩ := (List.pairwise_cons.mp h.ordered).1 other hother
  have hnonempty := h.nonempty other (.tail _ hother)
  rw [Call.Encloses]
  omega

theorem outermost_cons_iff {call other : Call} {rest : List Call} :
    Outermost (call :: rest) other ↔ ¬ call.Encloses other ∧ Outermost rest other :=
  List.forall_mem_cons

/-- **The scan keeps the outermost calls**: of calls in order, all of which stand before or behind the end
of what was accepted last, those behind it that no other one holds. -/
theorem accept_callEdits (source : Bytes) {found : List Call} (h : InOrder found) {last : Nat}
    (hlast : ∀ call ∈ found, last ≤ call.node.start ∨ call.node.stop ≤ last) :
    Batch.accept last (found.map (callEdit source)) =
      (found.filter fun call => last ≤ call.node.start ∧ Outermost found call).map (callEdit source) := by
  induction found generalizing last with
  | nil => rfl
  | cons call rest ih =>
    have hcall := hlast call (.head _)
    have houter : Outermost (call :: rest) call := fun other hother => h.not_encloses_first hother
    rw [List.map_cons, Batch.accept]
    by_cases hskip : (callEdit source call).start < last
    · -- what a call that is skipped holds is skipped as well
      have hbefore : ¬ last ≤ call.node.start := Nat.not_le.mpr hskip
      rw [if_pos hskip, ih h.tail fun other hother => hlast other (.tail _ hother),
        List.filter_cons_of_neg (by simp [hbefore])]
      refine congrArg (List.map _) (List.filter_congr fun other hother => ?_)
      have hbehind := h.stop_le_start_iff hother
      simp only [outermost_cons_iff, ← hbehind, decide_eq_decide]
      constructor
      · rintro ⟨hle, hrest⟩
        exact ⟨hle, by omega, hrest⟩
      · rintro ⟨hle, -, hrest⟩
        exact ⟨hle, hrest⟩
    · have hle : last ≤ call.node.start := Nat.not_lt.mp hskip
      rw [if_neg hskip, List.filter_cons_of_pos (by simp [hle, houter]), List.map_cons]
      refine congrArg (_ :: ·) ((ih h.tail fun other hother => ?_).trans ?_)
      · exact ((List.pairwise_cons.mp h.ordered).1 other hother).2.symm
      · refine congrArg (List.map _) (List.filter_congr fun other hother => ?_)
        have hbehind := h.stop_le_start_iff hother
        have hlt := ((List.pairwise_cons.mp h.ordered).1 other hother).1
        simp only [outermost_cons_iff, ← hbehind, decide_eq_decide]
        constructor
        · rintro ⟨hstop, hrest⟩
          exact ⟨by omega, hstop, hrest⟩
        · rintro ⟨-, hstop, hrest⟩
          exact ⟨hstop, hrest⟩

/-- The first call is an outermost one, and the others are those behind it. -/
theorem outermost_cons {call : Call} {rest : List Call} (h : InOrder (call :: rest)) :
    outermost (call :: rest) =
      call :: rest.filter fun other => call.node.stop ≤ other.node.start ∧ Outermost rest other := by
  have houter : Outermost (call :: rest) call := fun other hother => h.not_encloses_first hother
  rw [outermost, List.filter_cons_of_pos (by simpa using houter)]
  refine congrArg (call :: ·) (List.filter_congr fun other hother => ?_)
  simp only [outermost_cons_iff, h.stop_le_start_iff hother]

/-- A call is an outermost one, or it is skipped. -/
theorem length_sub_outermost (found : List Call) :
    found.length - (outermost found).length =
      (found.filter fun call => ¬ Outermost found call).length := by
  have hsum := List.length_eq_countP_add_countP (l := found) fun call => Outermost found call
  simp only [List.countP_eq_length_filter, decide_eq_true_eq] at hsum
  rw [outermost]
  omega

/-- Two outermost calls are apart. -/
theorem outermost_pairwise {found : List Call} (h : InOrder found) :
    (outermost found).Pairwise fun a b => a.node.stop ≤ b.node.start := by
  refine (h.ordered.filter _).imp_of_mem fun {a b} ha hb horder => ?_
  have houter := of_decide_eq_true (List.mem_filter.mp hb).2 a (List.mem_filter.mp ha).1
  rw [Call.Encloses] at houter
  omega

/-! ## Merging the fixes -/

section

variable {source : Bytes} {chars : List Char} {root : Node} {path : String}

/-- The fix of a report without the prologue is the edit that replaces the call. -/
theorem merge_callEdit (hroot : root.WellFormed source) {call : Call} {member : Node}
    {rest : List Node} (hlaid : Laid source root call member rest) :
    Edit.merge source [callEdit source call] = .ok (callEdit source call) := by
  have hlt := hlaid.start_lt_stop hroot
  exact Edit.merge_single (by simp only [callEdit]; omega) (hlaid.stop_le hroot)

theorem encode?_prologueEdit (source : Bytes) (root : Node) (path : String) :
    (prologueEdit source root path).text.encode? ≠ none := by
  simp [prologueEdit, Text.ofString]

/-- **The fix of a report is merged**, with the prologue or without it: it ends with the call, starts no
later, and does what its edits do. -/
theorem exists_merge_lead (hsource : source = encode chars) (hroot : root.WellFormed source)
    {call : Call} {member : Node} {above : List Node} (hlaid : Laid source root call member above)
    (henc : (call.replacement source).encode? ≠ none) {lead : List Edit}
    (hlead : lead = [] ∨ lead = [prologueEdit source root path]) :
    ∃ fix, Edit.merge source (lead ++ [callEdit source call]) = .ok fix ∧
      fix.start ≤ call.node.start ∧ fix.stop = call.node.stop ∧ fix.text.encode? ≠ none ∧
      ∀ position rest, Edit.rewrite source position (fix :: rest) =
        Edit.rewrite source position (lead ++ callEdit source call :: rest) := by
  rcases hlead with rfl | rfl
  · exact ⟨callEdit source call, merge_callEdit hroot hlaid, Nat.le_refl _, rfl, henc, fun _ _ => rfl⟩
  · have hanchor := hlaid.anchor_le hroot
    have hlt := hlaid.start_lt_stop hroot
    have hapart : Edit.Apart [prologueEdit source root path, callEdit source call] := by
      refine ⟨?_, ?_, ?_⟩
      · simpa [prologueEdit, callEdit] using hanchor
      · simp only [List.forall_mem_cons, prologueEdit, callEdit]
        exact ⟨Nat.le_refl _, by omega, by simp⟩
      · simp only [List.forall_mem_cons]
        exact ⟨encode?_prologueEdit source root path, henc, by simp⟩
    have hbetween : ∃ inner, Edit.slice source (prologueAnchor source root) call.node.start =
        encode inner := by
      have hboundary := boundary_prologueAnchor hroot
      have hboundary' := hlaid.boundary
      subst hsource
      exact hboundary.exists_slice hboundary' hanchor
    obtain ⟨fix, hmerge, hstart, hstop, hfix, hrewrite⟩ :=
      Edit.merge_pair hapart (hlaid.stop_le hroot) hbetween
    exact ⟨fix, hmerge, by rw [hstart]; exact hanchor, hstop, hfix, hrewrite⟩

/-- The last edit of a report replaces its call. -/
theorem getLast?_edits_reportAll (source : Bytes) (path : String) (lead : List Edit)
    (found : List Call) : (reportAll source path lead found).map (·.edits.getLast?) =
      found.map (some ∘ callEdit source) := by
  cases found with
  | nil => rfl
  | cons call rest => simp [reportAll, Console.report]

theorem fixable_of_mem_reportAll {lead : List Edit} {found : List Call} {report : Report}
    (h : report ∈ reportAll source path lead found) : report.fixable = true := by
  obtain ⟨k, hk⟩ := List.getElem?_of_mem h
  rw [getElem?_reportAll] at hk
  obtain ⟨call, -, rfl⟩ := Option.map_eq_some_iff.mp hk
  simp [Report.fixable, Console.report]

end

/-! ## The fixes of a list of calls -/

section

variable {source : Bytes} {fix : Edit} {first : Call} {rest : List Call}

/-- A first fix that starts early leaves the fixes in order. -/
theorem inOrder_fixes (h : InOrder (first :: rest)) (hstart : fix.start ≤ first.node.start) :
    Edit.inOrder (fix :: rest.map (callEdit source)) = fix :: rest.map (callEdit source) := by
  refine Edit.inOrder_of_pairwise (List.pairwise_cons.mpr ⟨?_, List.pairwise_map.mpr ?_⟩)
  · intro edit hedit
    obtain ⟨call, hcall, rfl⟩ := List.mem_map.mp hedit
    have hlt := ((List.pairwise_cons.mp h.ordered).1 call hcall).1
    exact Edit.before_of_start_lt (Nat.lt_of_le_of_lt hstart hlt)
  · exact h.tail.ordered.imp fun horder => Edit.before_of_start_lt horder.1

/-- The first fix is accepted, and of the others those of the outermost calls. -/
theorem accept_fixes (h : InOrder (first :: rest)) (hstop : fix.stop = first.node.stop) :
    Batch.accept 0 (fix :: rest.map (callEdit source)) =
      fix :: ((outermost (first :: rest)).tail.map (callEdit source)) := by
  -- the fix may start early, but the scan goes on from where the call ends
  rw [Batch.accept, if_neg (Nat.not_lt_zero _), hstop, outermost_cons h, List.tail_cons]
  refine congrArg (fix :: ·) (accept_callEdits source h.tail fun call hcall => ?_)
  exact ((List.pairwise_cons.mp h.ordered).1 call hcall).2.symm

/-- The accepted fixes are those of the outermost calls. -/
theorem accept_fixes_eq_zip (h : InOrder (first :: rest)) (hstop : fix.stop = first.node.stop) :
    Batch.accept 0 (fix :: rest.map (callEdit source)) =
      (((fix :: rest.map (callEdit source)).zip (first :: rest)).filter fun pair =>
        Outermost (first :: rest) pair.2).map Prod.fst := by
  have houter : Outermost (first :: rest) first := fun other hother => h.not_encloses_first hother
  rw [accept_fixes h hstop, List.zip_cons_cons, List.filter_cons_of_pos (by simpa using houter),
    List.map_cons, outermost, List.filter_cons_of_pos (by simpa using houter), List.tail_cons]
  rw [← List.map_prod_right_eq_zip, List.filter_map, List.map_map]
  rfl

/-- They follow one another. -/
theorem apart_accepted (h : InOrder (first :: rest)) (hstart : fix.start ≤ first.node.start)
    (hstop : fix.stop = first.node.stop) (henc : fix.text.encode? ≠ none)
    (htexts : ∀ call ∈ first :: rest, (call.replacement source).encode? ≠ none) :
    Edit.Apart (fix :: ((outermost (first :: rest)).tail.map (callEdit source))) := by
  have hpairs := outermost_pairwise h
  have hmem : ∀ call ∈ (outermost (first :: rest)).tail, call ∈ first :: rest := fun call hcall =>
    (List.mem_filter.mp (List.mem_of_mem_tail hcall)).1
  rw [outermost_cons h, List.tail_cons] at hmem ⊢
  rw [outermost_cons h, List.pairwise_cons] at hpairs
  have hnonempty := h.nonempty first (.head _)
  refine ⟨List.pairwise_cons.mpr ⟨?_, List.pairwise_map.mpr hpairs.2⟩, ?_, ?_⟩
  · intro edit hedit
    obtain ⟨call, hcall, rfl⟩ := List.mem_map.mp hedit
    rw [hstop]
    exact hpairs.1 call hcall
  · refine List.forall_mem_cons.mpr ⟨by omega, fun edit hedit => ?_⟩
    obtain ⟨call, hcall, rfl⟩ := List.mem_map.mp hedit
    exact Nat.le_of_lt (h.nonempty call (hmem call hcall))
  · refine List.forall_mem_cons.mpr ⟨henc, fun edit hedit => ?_⟩
    obtain ⟨call, hcall, rfl⟩ := List.mem_map.mp hedit
    exact htexts call (hmem call hcall)

variable {chars : List Char} {root : Node} {path : String}

/-- **The fixes of calls in order**: every fix is merged, those of the outermost calls are accepted, and
together they do what the edits of these calls do. -/
theorem exists_fixes (hsource : source = encode chars) (hroot : root.WellFormed source)
    {found : List Call} (h : InOrder found)
    (hlaid : ∀ call ∈ found, ∃ member above, Laid source root call member above)
    (htexts : ∀ call ∈ found, (call.replacement source).encode? ≠ none) {lead : List Edit}
    (hlead : lead = [] ∨ lead = [prologueEdit source root path]) :
    ∃ fixes, (reportAll source path lead found).map (fun report => Edit.merge source report.edits) =
        fixes.map .ok ∧
      Batch.accept 0 (Edit.inOrder fixes) =
        ((fixes.zip found).filter fun pair => Outermost found pair.2).map Prod.fst ∧
      fixes.length = found.length ∧
      (Batch.accept 0 (Edit.inOrder fixes)).length = (outermost found).length ∧
      Edit.Apart (Batch.accept 0 (Edit.inOrder fixes)) ∧
      Edit.rewrite source 0 (Batch.accept 0 (Edit.inOrder fixes)) =
        Edit.rewrite source 0
          ((if found = [] then [] else lead) ++ (outermost found).map (callEdit source)) := by
  cases found with
  | nil =>
    have hnone : Batch.accept 0 (Edit.inOrder []) = [] := by simp [Edit.inOrder, Batch.accept]
    refine ⟨[], rfl, ?_⟩
    rw [hnone]
    exact ⟨rfl, rfl, rfl, ⟨.nil, by simp, by simp⟩, rfl⟩
  | cons first rest =>
    obtain ⟨member, above, hfirst⟩ := hlaid first (.head _)
    obtain ⟨fix, hmerge, hstart, hstop, henc, hrewrite⟩ :=
      exists_merge_lead hsource hroot hfirst (htexts first (.head _)) hlead
    -- only the first report carries more than the edit of its call
    refine ⟨fix :: rest.map (callEdit source), ?_, ?_⟩
    · rw [reportAll, List.map_cons, List.map_cons, List.map_map, List.map_map]
      refine congr (congrArg List.cons hmerge) (List.map_congr_left fun call hcall => ?_)
      obtain ⟨member, above, hcall⟩ := hlaid call (.tail _ hcall)
      exact merge_callEdit hroot hcall
    · rw [inOrder_fixes h hstart]
      refine ⟨accept_fixes_eq_zip h hstop, by simp, ?_⟩
      rw [accept_fixes h hstop]
      refine ⟨?_, apart_accepted h hstart hstop henc htexts, ?_⟩
      · simp [outermost_cons h]
      · rw [hrewrite, if_neg (by simp), outermost_cons h]
        rfl

end

/-! ## The pass -/

section

variable (source : Bytes) (root : Node) (globals : List String) (path : String)

theorem reported_inOrder {chars : List Char} (hsource : source = encode chars)
    (hroot : root.WellFormed source) (honce : MetOnce (ScopeTree.walk source root globals).2) :
    InOrder (reported source root globals) := by
  refine ⟨fun call hcall => ?_, reported_pairwise hsource hroot honce⟩
  obtain ⟨member, rest, hlaid⟩ := laid_of_mem_reported hsource hroot hcall
  have hlt := hlaid.start_lt_stop hroot
  omega

/-- Everything that is written: the prologue, if there are reports and the file's top does not bind the
logger, and what takes the place of the outermost calls. -/
def pieces : List Edit :=
  (if reports (.analyze source root globals) path ≠ [] ∧
      (ScopeTree.analyze source root globals).arena.resolve (some 1) Prologue.loggerName = none then
    [prologueEdit source root path] else []) ++
  (outermost (reported source root globals)).map (callEdit source)

theorem lead_eq_or : lead source root globals path = [] ∨
    lead source root globals path = [prologueEdit source root path] := by
  rw [lead]
  split
  · exact .inl rfl
  · exact .inr rfl

theorem pieces_eq : pieces source root globals path =
    (if reported source root globals = [] then [] else lead source root globals path) ++
      (outermost (reported source root globals)).map (callEdit source) := by
  rw [pieces, reports_analyze, lead]
  rcases reported source root globals with _ | ⟨first, rest⟩
  · simp [reportAll]
  · rcases (ScopeTree.analyze source root globals).arena.resolve (some 1) Prologue.loggerName with _ | v
    · simp [reportAll]
    · simp [reportAll]

/-- The pieces follow one another. -/
theorem pieces_pairwise {chars : List Char} (hsource : source = encode chars)
    (hroot : root.WellFormed source) (honce : MetOnce (ScopeTree.walk source root globals).2) :
    (pieces source root globals path).Pairwise fun a b => a.stop ≤ b.start := by
  have hcalls := outermost_pairwise (reported_inOrder source root globals hsource hroot honce)
  rw [pieces_eq, List.pairwise_append]
  refine ⟨?_, List.pairwise_map.mpr hcalls, fun a ha b hb => ?_⟩
  · split
    · exact .nil
    · rcases lead_eq_or source root globals path with hlead | hlead <;> simp [hlead]
  · obtain ⟨call, hcall, rfl⟩ := List.mem_map.mp hb
    obtain ⟨member, rest, hlaid⟩ :=
      laid_of_mem_reported hsource hroot (List.mem_filter.mp hcall).1
    have hanchor := hlaid.anchor_le hroot
    split at ha
    · cases ha
    · rcases lead_eq_or source root globals path with hlead | hlead
      · rw [hlead] at ha
        cases ha
      · rw [hlead, List.mem_singleton] at ha
        subst ha
        exact hanchor

/-- **A pass rewrites exactly the outermost calls, and never loses the prologue.** In a well-formed tree of
a text, none of whose replacements holds a surrogate, every fix is merged and none is dropped; the fixes
that are accepted are those of the outermost calls, and all others are counted as skipped. The output is
the source with the prologue inserted, if it is needed, and each outermost call replaced. The calls are
those that the last edits of the reports replace. -/
theorem apply_rewrites_outermost {chars : List Char} (hdecode : Utf8.decode source = .ok chars)
    (hroot : root.WellFormed source) (honce : MetOnce (ScopeTree.walk source root globals).2)
    (htexts : ∀ call ∈ reported source root globals, (call.replacement source).encode? ≠ none) :
    (reports (.analyze source root globals) path).map (·.edits.getLast?) =
      (reported source root globals).map (some ∘ callEdit source) ∧
    ∃ fixes,
      (reports (.analyze source root globals) path).map (fun report =>
        Edit.merge source report.edits) = fixes.map .ok ∧
      Batch.merged source (reports (.analyze source root globals) path) = .ok fixes ∧
      Batch.accept 0 (Edit.inOrder fixes) =
        ((fixes.zip (reported source root globals)).filter fun pair =>
          Outermost (reported source root globals) pair.2).map Prod.fst ∧
      (pieces source root globals path).Pairwise (fun a b => a.stop ≤ b.start) ∧
      Batch.apply source (reports (.analyze source root globals) path) =
        .ok ⟨Edit.rewrite source 0 (pieces source root globals path),
          (outermost (reported source root globals)).length,
          ((reported source root globals).filter fun call =>
            ¬ Outermost (reported source root globals) call).length⟩ := by
  have hsource := Utf8.decode_eq_ok_iff.mp hdecode
  have hfound := reported_inOrder source root globals hsource hroot honce
  have hlaid : ∀ call ∈ reported source root globals,
      ∃ member rest, Laid source root call member rest := fun call hcall =>
    laid_of_mem_reported hsource hroot hcall
  have hpairs := pieces_pairwise source root globals path hsource hroot honce
  rw [pieces_eq] at hpairs ⊢
  rw [reports_analyze]
  -- nothing but the order of the calls matters from here on
  generalize reported source root globals = found at hfound hlaid hpairs htexts ⊢
  obtain ⟨fixes, hmerge, haccept, hlength, hcount, hapart, hrewrite⟩ :=
    exists_fixes hsource hroot hfound hlaid htexts (lead_eq_or source root globals path)
  have hmerged := Batch.merged_of_map_merge (fun _ => fixable_of_mem_reportAll) hmerge
  refine ⟨getLast?_edits_reportAll source path _ found, fixes, hmerge, hmerged, haccept, hpairs, ?_⟩
  rw [Batch.apply_of_merged hmerged rfl hapart, hrewrite, hcount, hlength, length_sub_outermost]

/-- In the file with one call inside another the prologue goes behind the interpreter line, the outer call
is replaced, and the inner one, which the replacement does not carry over, is skipped. -/
theorem apply_nested :
    nestedRoot.WellFormed nestedSource ∧
    MetOnce (ScopeTree.walk nestedSource nestedRoot []).2 ∧
    Batch.apply nestedSource (reports (.analyze nestedSource nestedRoot []) "src/a.ts") =
      .ok ⟨encode ("#!node\r\nimport \x7b logger \x7d from 'lib/logger';\n" ++
        "const moduleLogger = logger.child(\x7b namespace: ['a'] \x7d);\nmoduleLogger.warn()").toList,
        1, 1⟩ := by
  have hdecode : Utf8.decode nestedSource = .ok _ := Utf8.decode_eq_ok_iff.mpr rfl
  have hroot : nestedRoot.WellFormed nestedSource :=
    Node.wellFormed_of_isWellFormed _ (by decide +kernel)
  have honce : MetOnce (ScopeTree.walk nestedSource nestedRoot []).2 := by
    have hstarts : (ScopeTree.walk nestedSource nestedRoot []).2.Pairwise
        fun a b => a.site.node.start ≠ b.site.node.start := by decide +kernel
    exact hstarts.imp fun hne _ hsite => hne (congrArg (·.node.start) hsite)
  have hreported : reported nestedSource nestedRoot [] =
      (nativeUses (ScopeTree.walk nestedSource nestedRoot []).1
        (ScopeTree.walk nestedSource nestedRoot []).2).filterMap (call? nestedSource) :=
    List.mergeSort_of_pairwise (by decide +kernel)
  have htexts : ∀ call ∈ reported nestedSource nestedRoot [],
      (call.replacement nestedSource).encode? ≠ none := by
    rw [hreported]
    decide +kernel
  obtain ⟨-, fixes, -, -, -, -, happly⟩ :=
    apply_rewrites_outermost nestedSource nestedRoot [] "src/a.ts" hdecode hroot honce htexts
  refine ⟨hroot, honce, happly.trans (congrArg Except.ok ?_)⟩
  rw [pieces_eq, hreported]
  decide +kernel

end

end LoggerLint.Console
