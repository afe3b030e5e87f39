import LoggerLint.Proofs.Console.Native

/-!
# Which calls are reported

`Offends` says, in terms of the tree and its scopes alone, when a use of a name is one that the rule
forbids: it spells the global, no scope of the file binds it, and it is the object of a member access
that is called, with arguments in parentheses, under one of the three method names.

The reports of a file tell of exactly these uses, one each, in the order of their calls; two calls with
one start keep the order in which their uses were met (`exists_placed`).
-/

namespace LoggerLint.Console

/-! ## The shape of a call -/

/-- The use is the object of `member`, which is the function of `call`, under a replaced method. -/
structure Calls (source : Bytes) (use : Reference) (member call : Node) : Prop where
  /-- the use is the object of a member access -/
  parent : use.site.parent? = some member
  /-- the parent is a member access -/
  member_kind : member.kind = "member_expression"
  /-- the object of the access is the node of the use -/
  object : ∃ object, member.child? "object" = some object ∧ object.sameAs use.site.node = true
  /-- a method that is replaced is accessed -/
  property : ∃ property, member.child? "property" = some property ∧
    property.text source ∈ ["error", "warn", "info"]
  /-- the access stands in the call -/
  grandparent : use.site.grandparent? = some call
  /-- the call is a call -/
  call_kind : call.kind = "call_expression"
  /-- the access is what is called -/
  function : ∃ function, call.child? "function" = some function ∧ function.sameAs member = true
  /-- the arguments stand in parentheses -/
  arguments : ∃ arguments, call.child? "arguments" = some arguments ∧ arguments.kind = "arguments"

theorem same?_iff {left : Option Node} {right : Node} :
    Node.same? left (some right) = true ↔ ∃ node, left = some node ∧ node.sameAs right = true := by
  cases left with
  | none => simp [Node.same?]
  | some node => simp [Node.same?]

/-- A node that is taken only if it is of a kind and passes a test. -/
theorem guarded_eq_some_iff {node? : Option Node} {kind : String} {test : Node → Bool} {found : Node} :
    (match node? with
      | some node => if node.kind == kind && test node then some node else none
      | none => none) = some found ↔
      node? = some found ∧ found.kind = kind ∧ test found = true := by
  rcases node? with _ | node
  · simp
  · simp only [Bool.and_eq_true, beq_iff_eq, Option.ite_none_right_eq_some, Option.some.injEq]
    constructor
    · rintro ⟨hshape, rfl⟩
      exact ⟨rfl, hshape⟩
    · rintro ⟨rfl, hshape⟩
      exact ⟨hshape, rfl⟩

theorem memberAccess?_eq_some_iff {use : Reference} {member : Node} :
    memberAccess? use = some member ↔ use.site.parent? = some member ∧
      member.kind = "member_expression" ∧
      ∃ object, member.child? "object" = some object ∧ object.sameAs use.site.node = true := by
  rw [memberAccess?, ← same?_iff]
  exact guarded_eq_some_iff

theorem callOf?_eq_some_iff {site : Site} {member call : Node} :
    callOf? site member = some call ↔ site.grandparent? = some call ∧
      call.kind = "call_expression" ∧
      ∃ function, call.child? "function" = some function ∧ function.sameAs member = true := by
  rw [callOf?, ← same?_iff]
  exact guarded_eq_some_iff

theorem isSome_arguments?_iff {call : Node} :
    (arguments? call).isSome = true ↔
      ∃ arguments, call.child? "arguments" = some arguments ∧ arguments.kind = "arguments" := by
  rw [arguments?]
  rcases call.child? "arguments" with _ | arguments
  · simp
  · by_cases hkind : arguments.kind = "arguments"
    · simp [hkind]
    · simp [hkind]

/-- The methods that are replaced, by name. -/
theorem isSome_ofName?_iff {name : String} :
    (Method.ofName? name).isSome = true ↔ name ∈ ["error", "warn", "info"] := by
  rw [Method.ofName?, List.find?_isSome]
  simp [Method.name, eq_comm (a := name)]

/-- An access without a property accesses the empty name, which is no method. -/
theorem isSome_ofName?_accessedProperty_iff {source : Bytes} {member : Node} :
    (Method.ofName? (accessedProperty source member)).isSome = true ↔
      ∃ property, member.child? "property" = some property ∧
        property.text source ∈ ["error", "warn", "info"] := by
  rw [isSome_ofName?_iff, accessedProperty]
  rcases member.child? "property" with _ | property
  · simp
  · simp

/-- The uses for which a call is found are those of the right shape. -/
theorem exists_call?_iff {source : Bytes} {use : Reference} {node : Node} :
    (∃ call, call? source use = some call ∧ call.node = node) ↔ ∃ member, Calls source use member node := by
  constructor
  · rintro ⟨call, hcall, rfl⟩
    simp only [call?, Option.bind_eq_bind, Option.bind_eq_some_iff, Option.pure_def,
      Option.some.injEq] at hcall
    obtain ⟨member, hmember, method, hmethod, node, hnode, arguments, harguments, rfl⟩ := hcall
    obtain ⟨hparent, hkind, hobject⟩ := memberAccess?_eq_some_iff.mp hmember
    obtain ⟨hgrandparent, hcallKind, hfunction⟩ := callOf?_eq_some_iff.mp hnode
    have hproperty := isSome_ofName?_accessedProperty_iff.mp (Option.isSome_of_eq_some hmethod)
    have hparens := isSome_arguments?_iff.mp (Option.isSome_of_eq_some harguments)
    exact ⟨member, hparent, hkind, hobject, hproperty, hgrandparent, hcallKind, hfunction, hparens⟩
  · rintro ⟨member, h⟩
    have hmember := memberAccess?_eq_some_iff.mpr ⟨h.parent, h.member_kind, h.object⟩
    have hnode := callOf?_eq_some_iff.mpr ⟨h.grandparent, h.call_kind, h.function⟩
    obtain ⟨method, hmethod⟩ := Option.isSome_iff_exists.mp
      (isSome_ofName?_accessedProperty_iff.mpr h.property)
    obtain ⟨arguments, harguments⟩ := Option.isSome_iff_exists.mp (isSome_arguments?_iff.mpr h.arguments)
    exact ⟨⟨use, node, method, arguments⟩, by simp [call?, hmember, hmethod, hnode, harguments], rfl⟩

/-- A call is found at the use it is asked for. -/
theorem reference_of_call? {source : Bytes} {use : Reference} {call : Call}
    (h : call? source use = some call) : call.reference = use := by
  simp only [call?, Option.bind_eq_bind, Option.bind_eq_some_iff, Option.pure_def,
    Option.some.injEq] at h
  obtain ⟨member, -, method, -, node, -, arguments, -, rfl⟩ := h
  rfl

/-! ## Offending uses -/

/-- **A use that the rule forbids**, with the call it is part of. -/
structure Offends (tree : ScopeTree) (use : Reference) (call : Node) : Prop where
  /-- the use spells the global -/
  text : use.site.node.text tree.source = globalName
  /-- no scope up to the module's binds the global -/
  free : tree.arena.Free globalName use.scope
  /-- a replaced method of it is called -/
  called : ∃ member, Calls tree.source use member call

/-! ## Sorting by start -/

/-- Sorting leaves the calls with one start in their order. -/
theorem filter_mergeSort_start (offset : Nat) (found : List (Nat × Call)) :
    (found.mergeSort fun a b => a.2.node.start ≤ b.2.node.start).filter (·.2.node.start = offset) =
      found.filter (·.2.node.start = offset) := by
  have hties : (found.filter (·.2.node.start = offset)).Pairwise
      fun a b => decide (a.2.node.start ≤ b.2.node.start) = true := by
    refine List.pairwise_of_forall_mem_list fun a ha b hb => ?_
    have ha' := (List.mem_filter.mp ha).2
    have hb' := (List.mem_filter.mp hb).2
    simp only [decide_eq_true_eq] at ha' hb' ⊢
    omega
  -- the calls with this start are a sorted part of the list, which sorting keeps together
  have hsub := List.sublist_mergeSort (fun a b c hab hbc => by simp at *; omega)
    (fun a b => by simp; omega) hties List.filter_sublist
  have hfilter := hsub.filter (·.2.node.start = offset)
  rw [List.filter_filter] at hfilter
  simp only [Bool.and_self] at hfilter
  exact (hfilter.eq_of_length ((List.mergeSort_perm _ _).filter _).length_eq.symm).symm

/-- Calls in the order of their uses are sorted by start, and then by the place of the use. -/
theorem pairwise_mergeSort_start {found : List (Nat × Call)} (hplaces : found.Pairwise (·.1 < ·.1)) :
    (found.mergeSort fun a b => a.2.node.start ≤ b.2.node.start).Pairwise fun a b =>
      a.2.node.start < b.2.node.start ∨ a.2.node.start = b.2.node.start ∧ a.1 < b.1 := by
  rw [List.pairwise_iff_forall_sublist]
  intro a b hab
  have hsorted : (found.mergeSort fun a b => a.2.node.start ≤ b.2.node.start).Pairwise
      fun a b => decide (a.2.node.start ≤ b.2.node.start) = true :=
    List.pairwise_mergeSort (fun a b c hab hbc => by simp at *; omega) (fun a b => by simp; omega) found
  have hle := of_decide_eq_true (List.pairwise_iff_forall_sublist.mp hsorted hab)
  rcases Nat.lt_or_eq_of_le hle with hlt | heq
  · exact .inl hlt
  · -- a tie stands in the sorted list as it stood before
    have htie := hab.filter (·.2.node.start = b.2.node.start)
    rw [filter_mergeSort_start] at htie
    simp only [List.filter_cons, heq, decide_true, if_true, List.filter_nil] at htie
    exact .inr ⟨heq, List.pairwise_iff_forall_sublist.mp hplaces (htie.trans List.filter_sublist)⟩

/-! ## The calls of native uses -/

section

variable (source : Bytes) (arena : Arena) (uses : List Reference)

/-- The calls of the native uses, each with the place of its use among all uses. -/
def placedCalls : List (Nat × Call) :=
  uses.zipIdx.filterMap fun (use, i) =>
    if use.name = globalName ∧ arena.Free globalName use.scope then (call? source use).map (i, ·)
    else none

variable {source arena uses} in
theorem mem_placedCalls_iff {i : Nat} {call : Call} :
    (i, call) ∈ placedCalls source arena uses ↔
      ∃ use, uses[i]? = some use ∧ use.name = globalName ∧ arena.Free globalName use.scope ∧
        call? source use = some call := by
  simp only [placedCalls, List.mem_filterMap, Prod.exists, List.mk_mem_zipIdx_iff_getElem?,
    Option.ite_none_right_eq_some, Option.map_eq_some_iff, Prod.mk.injEq]
  constructor
  · rintro ⟨use, j, huse, ⟨hname, hfree⟩, found, hcall, rfl, rfl⟩
    exact ⟨use, huse, hname, hfree, hcall⟩
  · rintro ⟨use, huse, hname, hfree, hcall⟩
    exact ⟨use, i, huse, ⟨hname, hfree⟩, call, hcall, rfl, rfl⟩

theorem placedCalls_pairwise : (placedCalls source arena uses).Pairwise (·.1 < ·.1) := by
  have hplaces : uses.zipIdx.Pairwise (·.2 < ·.2) := by
    rw [← List.pairwise_map, List.zipIdx_map_snd]
    exact List.pairwise_lt_range'
  refine hplaces.filterMap _ ?_
  rintro ⟨use, i⟩ ⟨use', j⟩ hlt placed hplaced placed' hplaced'
  simp only [Option.ite_none_right_eq_some, Option.map_eq_some_iff] at hplaced hplaced'
  obtain ⟨-, call, -, rfl⟩ := hplaced
  obtain ⟨-, call', -, rfl⟩ := hplaced'
  exact hlt

theorem map_snd_placedCalls :
    (placedCalls source arena uses).map Prod.snd =
      (nativeUses arena uses).filterMap (call? source) := by
  have huses : nativeUses arena uses = nativeUses arena (uses.zipIdx.map Prod.fst) := by
    rw [List.zipIdx_map_fst]
  rw [huses, nativeUses, List.filter_map, List.filterMap_map, List.filterMap_filter, placedCalls,
    List.map_filterMap]
  refine congrArg (List.filterMap · _) (funext fun placed => ?_)
  obtain ⟨use, i⟩ := placed
  by_cases hnative : use.name = globalName ∧ arena.Free globalName use.scope
  · simp [hnative, Option.map_map, Function.comp_def]
  · simp only [Function.comp_apply, decide_eq_true_eq, if_neg hnative, Option.map_none]

/-- Sorted by start, they are the calls that are reported. -/
theorem map_snd_mergeSort_placedCalls :
    ((placedCalls source arena uses).mergeSort fun a b => a.2.node.start ≤ b.2.node.start).map
        Prod.snd =
      calls source (nativeUses arena uses) := by
  rw [calls, ← map_snd_placedCalls]
  exact List.map_mergeSort (f := Prod.snd) fun _ _ _ _ => rfl

end

/-! ## The reports of a file -/

/-- Only the first report carries what leads. -/
theorem getElem?_reportAll (source : Bytes) (path : String) (lead : List Edit) (found : List Call)
    (k : Nat) : (reportAll source path lead found)[k]? =
      found[k]?.map (report source path (if k = 0 then lead else [])) := by
  cases found with
  | nil => simp [reportAll]
  | cons call rest => cases k <;> simp [reportAll]

theorem length_reportAll (source : Bytes) (path : String) (lead : List Edit) (found : List Call) :
    (reportAll source path lead found).length = found.length := by
  cases found with
  | nil => rfl
  | cons call rest => simp [reportAll]

theorem length_lead (source : Bytes) (root : Node) (globals : List String) (path : String) :
    (lead source root globals path).length =
      if (ScopeTree.analyze source root globals).arena.resolve (some 1) Prologue.loggerName = none
      then 1 else 0 := by
  rw [lead]
  rcases (ScopeTree.analyze source root globals).arena.resolve (some 1) Prologue.loggerName with _ | v
  · simp
  · simp

/-- A use offends if and only if it is native and a call is found at it. -/
theorem offends_iff {source : Bytes} {root : Node} {globals : List String} {use : Reference}
    (huse : use ∈ (ScopeTree.walk source root globals).2) {node : Node} :
    Offends (.analyze source root globals) use node ↔
      use.name = globalName ∧ (ScopeTree.walk source root globals).1.Free globalName use.scope ∧
        ∃ call, call? source use = some call ∧ call.node = node := by
  rw [(ScopeTree.site_of_mem_walk huse).2, exists_call?_iff,
    ← ScopeTree.free_analyze source root globals]
  exact ⟨fun h => ⟨h.text, h.free, h.called⟩, fun ⟨htext, hfree, hcalled⟩ => ⟨htext, hfree, hcalled⟩⟩

/-- The calls that are reported, with the places of their uses: those at which an offending use stands,
by start and then by place. -/
theorem exists_placed (source : Bytes) (root : Node) (globals : List String) :
    ∃ placed : List (Nat × Call),
      (∀ i call, (i, call) ∈ placed ↔ ∃ use, (ScopeTree.walk source root globals).2[i]? = some use ∧
        call? source use = some call ∧ Offends (.analyze source root globals) use call.node) ∧
      placed.Pairwise (fun a b =>
        a.2.node.start < b.2.node.start ∨ a.2.node.start = b.2.node.start ∧ a.1 < b.1) ∧
      placed.map Prod.snd = reported source root globals := by
  refine ⟨_, fun i call => ?_, pairwise_mergeSort_start (placedCalls_pairwise source
    (ScopeTree.walk source root globals).1 (ScopeTree.walk source root globals).2),
    map_snd_mergeSort_placedCalls _ _ _⟩
  · rw [List.mem_mergeSort, mem_placedCalls_iff]
    constructor
    · rintro ⟨use, huse, hname, hfree, hcall⟩
      exact ⟨use, huse, hcall, (offends_iff (List.mem_of_getElem? huse)).mpr
        ⟨hname, hfree, call, hcall, rfl⟩⟩
    · rintro ⟨use, huse, hcall, hoffends⟩
      obtain ⟨hname, hfree, -⟩ := (offends_iff (List.mem_of_getElem? huse)).mp hoffends
      exact ⟨use, huse, hname, hfree, hcall⟩

/-- The report of a call names the use and the call, and its last edit replaces the call. -/
theorem report_spans (source : Bytes) (path : String) (lead : List Edit) {use : Reference} {call : Call}
    (hcall : call? source use = some call) :
    (report source path lead call).loc = .ofNode source use.site.node ∧
      (report source path lead call).nodeSpan = .ofNode source call.node ∧
      (report source path lead call).edits.getLast? =
        some ⟨call.node.start, call.node.stop, call.replacement source⟩ := by
  have huse := reference_of_call? hcall
  refine ⟨?_, rfl, ?_⟩
  · rw [← huse]
    rfl
  · simp [report, callEdit]

/-- From the scope of a use the way up ends at the module and the outermost scope. -/
theorem exists_chain_of_use {source : Bytes} {root : Node} {globals : List String} {use : Reference}
    (huse : use ∈ (ScopeTree.walk source root globals).2) :
    ∃ inner, (ScopeTree.analyze source root globals).arena.chain (some use.scope) = inner ++ [1, 0] := by
  have hsize := Arena.size_eq_of_skeleton (ScopeTree.skeleton_analyze source root globals)
  obtain ⟨hne, hlt⟩ := (ScopeTree.inside_of_mem_walk source root globals huse).1
  obtain ⟨inner, hchain, -⟩ :=
    (ScopeTree.analyze_rooted source root globals).chain_eq_append ⟨hne, hsize ▸ hlt⟩
  exact ⟨inner, hchain⟩

/-- A file whose module declares the global is left alone. -/
theorem reports_eq_nil_of_declared {source : Bytes} {root : Node} {globals : List String} {v : Variable}
    (hv : (ScopeTree.analyze source root globals).arena.lookup? globalName 1 = some v) (path : String) :
    reports (.analyze source root globals) path = [] := by
  have hdeclared : (ScopeTree.walk source root globals).1.lookup? globalName 1 ≠ none := by
    rw [Ne, ← ScopeTree.lookup?_analyze_eq_none_iff, hv]
    simp
  obtain ⟨w, hw⟩ := Option.ne_none_iff_exists'.mp hdeclared
  rw [reports_analyze, reported, nativeUses_eq_nil (ScopeTree.walk_rooted source root globals)
    (fun _ huse => ScopeTree.inside_of_mem_walk source root globals huse) hw]
  simp [calls, reportAll]

/-- Only the first report has a second edit, and only if it brings the prologue. -/
theorem length_edits_report (source : Bytes) (root : Node) (globals : List String) (path : String)
    (k : Nat) (call : Call) :
    (report source path (if k = 0 then lead source root globals path else []) call).edits.length =
      if k = 0 ∧ (ScopeTree.analyze source root globals).arena.resolve (some 1) Prologue.loggerName =
        none then 2 else 1 := by
  rw [report, List.length_append, List.length_singleton]
  by_cases hfirst : k = 0
  · simp only [hfirst, if_true, length_lead, true_and]
    split
    · rfl
    · rfl
  · simp [hfirst]

/-- **The rule is exact.** A file whose module declares the global has no reports. In any file the
reports tell of the offending uses, one each, named here by their places among all uses; they come in the
order of the starts of the calls, and where two calls start at one offset, in the order of the uses.
The last edit of a report replaces its call; it is the only one, but for the first report of a file
whose top does not bind the logger. -/
theorem reports_exact (source : Bytes) (root : Node) (globals : List String) (path : String) :
    let tree := ScopeTree.analyze source root globals
    let uses := (ScopeTree.walk source root globals).2
    (∃ top, tree.arena.top? = some top ∧ top.module? = some 1) ∧
    (∀ use ∈ uses, ∃ inner, tree.arena.chain (some use.scope) = inner ++ [1, 0]) ∧
    (∀ v, tree.arena.lookup? globalName 1 = some v → reports tree path = []) ∧
    ∃ found : List (Nat × Node),
      (∀ i call, (i, call) ∈ found ↔ ∃ use, uses[i]? = some use ∧ Offends tree use call) ∧
      found.Pairwise (fun a b => a.2.start < b.2.start ∨ a.2.start = b.2.start ∧ a.1 < b.1) ∧
      found.length = (reports tree path).length ∧
      ∀ k i call, found[k]? = some (i, call) →
        ∃ use report text, uses[i]? = some use ∧ (reports tree path)[k]? = some report ∧
          report.loc = .ofNode source use.site.node ∧ report.nodeSpan = .ofNode source call ∧
          report.edits.getLast? = some ⟨call.start, call.stop, text⟩ ∧
          report.edits.length =
            if k = 0 ∧ tree.arena.resolve (some 1) Prologue.loggerName = none then 2 else 1 := by
  intro tree uses
  obtain ⟨top, htop, hmodule, -⟩ := references_resolve source root globals
  obtain ⟨placed, hplaced, hsorted, hcalls⟩ := exists_placed source root globals
  have hreports := reports_analyze source root globals path
  rw [← hcalls] at hreports
  refine ⟨⟨top, htop, hmodule⟩, fun use huse => exists_chain_of_use huse,
    fun v hv => reports_eq_nil_of_declared hv path,
    placed.map fun p => (p.1, p.2.node), fun i node => ?_, List.pairwise_map.mpr hsorted, ?_,
    fun k i node hk => ?_⟩
  · simp only [List.mem_map, Prod.exists, Prod.mk.injEq, hplaced]
    constructor
    · rintro ⟨_, call, ⟨use, huse, -, hoffends⟩, rfl, rfl⟩
      exact ⟨use, huse, hoffends⟩
    · rintro ⟨use, huse, hoffends⟩
      obtain ⟨-, -, call, hcall, rfl⟩ := (offends_iff (List.mem_of_getElem? huse)).mp hoffends
      exact ⟨i, call, ⟨use, huse, hcall, hoffends⟩, rfl, rfl⟩
  · rw [hreports, length_reportAll, List.length_map, List.length_map]
  · obtain ⟨⟨_, call⟩, hk', heq⟩ := Option.map_eq_some_iff.mp (List.getElem?_map ▸ hk)
    obtain ⟨rfl, rfl⟩ := Prod.mk.inj heq
    obtain ⟨use, huse, hcall, -⟩ := (hplaced _ _).mp (List.mem_of_getElem? hk')
    obtain ⟨hloc, hspan, hlast⟩ := report_spans source path
      (if k = 0 then lead source root globals path else []) hcall
    refine ⟨use, _, _, huse, ?_, hloc, hspan, hlast,
      length_edits_report source root globals path k call⟩
    rw [hreports, getElem?_reportAll, List.getElem?_map, hk']
    rfl

theorem reports_nested_outer :
    ∃ use report text, (ScopeTree.walk nestedSource nestedRoot []).2[0]? = some use ∧
      Offends (.analyze nestedSource nestedRoot []) use nestedCall ∧
      report ∈ reports (.analyze nestedSource nestedRoot []) "a.ts" ∧
      report.edits.getLast? = some ⟨8, 37, text⟩ := by
  obtain ⟨-, -, -, found, hfound, -, -, htold⟩ := reports_exact nestedSource nestedRoot [] "a.ts"
  have hoffends : ∃ use, (ScopeTree.walk nestedSource nestedRoot []).2[0]? = some use ∧
      Offends (.analyze nestedSource nestedRoot []) use nestedCall := by
    refine ⟨_, rfl, by decide +kernel, by decide +kernel, nestedMember 8 4, ?_⟩
    exact {
      parent := rfl
      member_kind := rfl
      object := ⟨_, rfl, rfl⟩
      property := ⟨_, rfl, by decide +kernel⟩
      grandparent := rfl
      call_kind := rfl
      function := ⟨_, rfl, rfl⟩
      arguments := ⟨_, rfl, rfl⟩ }
  obtain ⟨k, hk⟩ := List.getElem?_of_mem ((hfound 0 nestedCall).mpr hoffends)
  obtain ⟨_, report, text, -, hreport, -, -, hlast, -⟩ := htold k 0 nestedCall hk
  obtain ⟨use, huse, hcall⟩ := hoffends
  exact ⟨use, report, text, huse, hcall, List.mem_of_getElem? hreport, hlast⟩

end LoggerLint.Console
