import LoggerLint.Lint
import LoggerLint.Proofs.Scope.Finished

/-!
# Uses of the native console

Which uses of `console` the rule looks at is worked out in two ways: from the variable, if the name is
an ambient global, and from the uses that nothing binds otherwise. Both give the same list:
`references_resolve` says that it holds the uses of the name that are free in the file, in the order in
which they were met. A file that declares the name at its top has none of them.

So the reports of a file are worked out from its tree and its source (`reports_analyze`); the ambient
globals only decide whether the prologue is needed, and only by whether they hold the logger's name.
-/

namespace LoggerLint

namespace Console

/-! ## The uses that the rule looks at -/

/-- The uses of the global that no scope of the file binds, in the order in which they were met. -/
def nativeUses (arena : Arena) (uses : List Reference) : List Reference :=
  uses.filter fun use => use.name = globalName ∧ arena.Free globalName use.scope

section

variable {arena : Arena} {uses : List Reference} (hroot : arena.Rooted) (hbound : arena.Bound)
  (hunused : arena.Unused) (hinside : ∀ use ∈ uses, arena.Inside use.scope ∧ use.target = none)

include hroot hinside in
/-- A file that declares the global at its top leaves no use of it native. -/
theorem nativeUses_eq_nil {v : Variable} (hv : arena.lookup? globalName 1 = some v) :
    nativeUses arena uses = [] := by
  refine List.filter_eq_nil_iff.mpr fun use huse hnative => ?_
  obtain ⟨-, hfree⟩ := of_decide_eq_true hnative
  have hone := hfree 1 (hroot.one_mem_chain (hinside use huse).1) Nat.one_ne_zero
  rw [hv] at hone
  cases hone

include hroot hbound hunused hinside in
/-- If nothing binds the name, its native uses are among those that are left over. -/
theorem filter_through_settleAll (hzero : arena.lookup? globalName 0 = none) {outer : Scope}
    (houter : (uses.foldl Arena.settle arena).get? 0 = some outer) :
    outer.through.filter (·.name == globalName) =
      (nativeUses arena uses).map fun use => { use with target := none } := by
  obtain ⟨s, hs, -⟩ := hroot.outermost
  have hthrough := Arena.through_settleAll hbound uses 0
  rw [houter, hs] at hthrough
  have hleft : outer.through = uses.filter fun use => arena.target? use = none := by
    simpa [hunused.through 0 s hs] using hthrough
  have hmark : ∀ use ∈ nativeUses arena uses, { use with target := none } = use := by
    intro use huse
    have htarget := (hinside use (List.mem_filter.mp huse).1).2
    rw [← htarget]
  rw [List.map_congr_left hmark, List.map_id', hleft, nativeUses, List.filter_filter]
  refine List.filter_congr fun use huse => ?_
  by_cases hname : use.name = globalName
  · have hiff := Arena.target?_eq_none_iff hroot hbound (hinside use huse).1
    rw [hname] at hiff
    simp [hname, hiff, hzero]
  · simp [hname]

include hroot hbound hunused hinside in
/-- If the name is ambient, its native uses are those of the variable. -/
theorem exists_lookup?_settleAll {v : Variable} (hv : arena.lookup? globalName 0 = some v) :
    ∃ found, (uses.foldl Arena.settle arena).lookup? globalName 0 = some found ∧
      found.definitions = [] ∧
      found.references = (nativeUses arena uses).map fun use => { use with target := some 0 } := by
  rw [Arena.lookup?_settleAll hbound, hv]
  refine ⟨_, rfl, hbound.ambient _ v hv, ?_⟩
  dsimp only
  rw [hunused.references _ _ _ hv, List.nil_append, nativeUses]
  congr 1
  refine List.filter_congr fun use huse => ?_
  by_cases hname : use.name = globalName
  · have hiff := Arena.target?_eq_zero_iff hroot hbound (hinside use huse).1
    rw [hname] at hiff
    simp [hname, hiff, hv]
  · simp [hname]

end

variable (source : Bytes) (root : Node) (globals : List String)

/-- **Both ways to find the uses of the global agree.** Whether it is ambient or not, they are the uses
that are free in the file; only the mark of what they denote differs. -/
theorem references_resolve :
    ∃ top, (ScopeTree.analyze source root globals).arena.top? = some top ∧
      top.module? = some 1 ∧
      ∃ target, (resolve (ScopeTree.analyze source root globals).arena top).references =
        (nativeUses (ScopeTree.walk source root globals).1
          (ScopeTree.walk source root globals).2).map fun use => { use with target } := by
  have hroot := ScopeTree.walk_rooted source root globals
  have hbound := ScopeTree.walk_bound source root globals
  have hunused := ScopeTree.walk_unused source root globals
  have hinside : ∀ use ∈ (ScopeTree.walk source root globals).2,
      (ScopeTree.walk source root globals).1.Inside use.scope ∧ use.target = none :=
    fun _ huse => ScopeTree.inside_of_mem_walk source root globals huse
  have hresolve := (ScopeTree.analyze_rooted source root globals).resolve_one globalName
  obtain ⟨outer, houter, htop⟩ := (ScopeTree.analyze_rooted source root globals).top?_eq
  refine ⟨_, htop, rfl, ?_⟩
  rw [ScopeTree.arena_analyze] at houter hresolve ⊢
  rw [Arena.lookup?_settleAll hbound _ globalName 1] at hresolve
  rcases hone : (ScopeTree.walk source root globals).1.lookup? globalName 1 with _ | v
  · rw [hone, Option.map_none, Option.none_or] at hresolve
    rcases hzero : (ScopeTree.walk source root globals).1.lookup? globalName 0 with _ | v
    · rw [Arena.lookup?_settleAll hbound, hzero, Option.map_none] at hresolve
      refine ⟨none, ?_⟩
      simp only [resolve, hresolve]
      exact filter_through_settleAll hroot hbound hunused hinside hzero houter
    · obtain ⟨found, hfound, hnone, hrefs⟩ :=
        exists_lookup?_settleAll hroot hbound hunused hinside hzero
      refine ⟨some 0, ?_⟩
      simp only [resolve, hresolve, hfound, hnone, List.isEmpty_nil, if_true]
      exact hrefs
  · -- the file declares the name itself
    refine ⟨none, ?_⟩
    have hdefs : v.definitions.isEmpty = false := by
      simpa using hbound.declared _ _ _ hone Nat.one_ne_zero
    rw [hone, Option.map_some, Option.some_or] at hresolve
    simp only [resolve, hresolve, hdefs, nativeUses_eq_nil hroot hinside hone, List.map_nil]
    rfl

/-! ## What the mark of a use decides -/

/-- The same call, with another mark of what the use denotes. -/
def Call.retarget (target : Option Nat) (call : Call) : Call :=
  { call with reference := { call.reference with target } }

theorem call?_retarget (target : Option Nat) (use : Reference) :
    call? source { use with target } = (call? source use).map (Call.retarget target) := by
  have hmember : memberAccess? { use with target } = memberAccess? use := rfl
  simp only [call?, hmember, Option.bind_eq_bind, Option.map_bind, Function.comp_def]
  refine Option.bind_congr fun member _ => Option.bind_congr fun method _ => ?_
  exact Option.bind_congr fun node _ => Option.bind_congr fun arguments _ => rfl

/-- Which calls are found, and in which order, does not depend on the marks. -/
theorem calls_retarget (target : Option Nat) (uses : List Reference) :
    calls source (uses.map fun use => { use with target }) =
      (calls source uses).map (Call.retarget target) := by
  have hfound : (uses.map fun use => { use with target }).filterMap (call? source) =
      (uses.filterMap (call? source)).map (Call.retarget target) := by
    rw [List.filterMap_map, List.map_filterMap]
    exact congrArg (uses.filterMap ·) (funext fun use => call?_retarget source target use)
  rw [calls, calls, hfound]
  exact (List.map_mergeSort (f := Call.retarget target) fun _ _ _ _ => rfl).symm

theorem report_retarget (path : String) (lead : List Edit) (target : Option Nat) (call : Call) :
    report source path lead (call.retarget target) = report source path lead call := rfl

theorem reportAll_retarget (path : String) (lead : List Edit) (target : Option Nat) :
    (found : List Call) → reportAll source path lead (found.map (Call.retarget target)) =
      reportAll source path lead found
  | [] => rfl
  | call :: rest => by
    simp only [List.map_cons, reportAll, report_retarget, List.map_map]
    rfl

/-! ## The reports of a file -/

/-- What goes before the first replacement: the prologue, unless the file's top binds the logger. -/
def lead (path : String) : List Edit :=
  if ((ScopeTree.analyze source root globals).arena.resolve (some 1) Prologue.loggerName).isSome then []
  else [prologueEdit source root path]

/-- The calls among the native uses of a file, in source order. -/
def reported : List Call :=
  calls source (nativeUses (ScopeTree.walk source root globals).1
    (ScopeTree.walk source root globals).2)

/-- **The reports of a file** tell of the calls among its native uses. -/
theorem reports_analyze (path : String) :
    reports (.analyze source root globals) path =
      reportAll source path (lead source root globals path) (reported source root globals) := by
  obtain ⟨top, htop, hmodule, target, hrefs⟩ := references_resolve source root globals
  simp only [reports, htop, hrefs, loggerIsBound, hmodule]
  rw [reported, ← reportAll_retarget source path _ target, ← calls_retarget]
  rfl

theorem reported_eq (globals' : List String) :
    reported source root globals = reported source root globals' := by
  rw [reported, reported, ScopeTree.uses_walk source root globals globals']
  refine congrArg (calls source) (List.filter_congr fun use _ => ?_)
  simp only [ScopeTree.free_walk source root globals globals']

/-- **Ambient globals matter through the logger's name only.** Two lists of globals, in whatever order
and with whatever repeats, that agree on the logger's name give the same reports, be the console among
them or not. -/
theorem reports_eq_of_agree_on_logger (path : String) {left right : List String}
    (hlogger : Prologue.loggerName ∈ left ↔ Prologue.loggerName ∈ right) :
    reports (.analyze source root left) path = reports (.analyze source root right) path := by
  have hlead : lead source root left path = lead source root right path := by
    simp only [lead, ScopeTree.isSome_resolve_analyze, hlogger,
      ScopeTree.lookup?_walk_ne source root left right Prologue.loggerName Nat.one_ne_zero]
  rw [reports_analyze, reports_analyze, hlead, reported_eq source root left right]

/-! ## A file with one call inside another -/

/-- The member access `console.…` at an offset, with a method name of this length. -/
def nestedMember (start length : Nat) : Node :=
  ⟨{ kind := "member_expression", start, stop := start + 8 + length, field := some "function" },
    [⟨{ kind := "identifier", start, stop := start + 7, field := some "object" }, []⟩,
      ⟨{ kind := "property_identifier", start := start + 8, stop := start + 8 + length,
         field := some "property" }, []⟩]⟩

/-- A call inside another, behind an interpreter line that ends in two bytes. -/
def nestedSource : Bytes :=
  Utf8.encode "#!node\r\nconsole.warn(console.info(1))".toList

/-- Its outer call. -/
def nestedCall : Node :=
  ⟨{ kind := "call_expression", start := 8, stop := 37 },
    [nestedMember 8 4,
      ⟨{ kind := "arguments", start := 20, stop := 37, field := some "arguments" },
        [⟨{ kind := "call_expression", start := 21, stop := 36 },
          [nestedMember 21 4,
            ⟨{ kind := "arguments", start := 33, stop := 36, field := some "arguments" },
              [⟨{ kind := "number", start := 34, stop := 35 }, []⟩]⟩]⟩]⟩]⟩

/-- Its tree. -/
def nestedRoot : Node :=
  ⟨{ kind := "program", start := 0, stop := 37 },
    [⟨{ kind := "hash_bang_line", start := 0, stop := 6 }, []⟩,
      ⟨{ kind := "expression_statement", start := 8, stop := 37 }, [nestedCall]⟩]⟩

theorem reports_nested_with_or_without_console :
    (Prologue.loggerName ∈ ["console", "window", "console"] ↔ Prologue.loggerName ∈ ["Buffer"]) ∧
    reports (.analyze nestedSource nestedRoot ["console", "window", "console"]) "a.ts" =
      reports (.analyze nestedSource nestedRoot ["Buffer"]) "a.ts" :=
  have hlogger :
      Prologue.loggerName ∈ ["console", "window", "console"] ↔ Prologue.loggerName ∈ ["Buffer"] := by
    decide
  ⟨hlogger, reports_eq_of_agree_on_logger nestedSource nestedRoot "a.ts" hlogger⟩

end Console

end LoggerLint
