import LoggerLint.Proofs.Console.Exact
import LoggerLint.Proofs.Fix.Prologue
import LoggerLint.Proofs.Scope.Behind

/-!
# What a rewritten callee denotes

The prologue is two statements that go to the top of a file: they import `logger` and declare `moduleLogger`, and
every reported call is rewritten to one of `moduleLogger`. The prologue is attached when nothing at the top of
the file binds `logger`; the other name is never looked up. So the import is the one declaration of its name
there, but `moduleLogger` may be declared again, or captured on the way from a call to the top.

`Console.callee_denotes_prologue_iff` says exactly when neither happens. The prologue is read like any file
(`Prologue.outline_tree`), and the file is read behind it (`behindPrologue`).
-/

namespace LoggerLint

namespace Prologue

/-! ## The prologue as a file -/

/-- The bytes of the prologue. -/
def bytes (path : String) : Bytes :=
  Utf8.encode (render path).toList

/-- The node of the imported name. -/
def importName : Node :=
  ⟨{ kind := "identifier", start := 9, stop := 15, field := some "name" }, []⟩

/-- The import of the shared logger. -/
def importStatement : Node :=
  ⟨{ kind := "import_statement", start := 0, stop := 36 },
    [⟨{ kind := "import_clause", start := 7, stop := 17 },
      [⟨{ kind := "named_imports", start := 7, stop := 17 },
        [⟨{ kind := "import_specifier", start := 9, stop := 15 }, [importName]⟩]⟩]⟩,
      ⟨{ kind := "string", start := 23, stop := 35, field := some "source" }, []⟩]⟩

/-- The node of the declared name. -/
def ownName : Node :=
  ⟨{ kind := "identifier", start := 43, stop := 55, field := some "name" }, []⟩

/-- The node of the name that the declaration uses. -/
def usedName : Node :=
  ⟨{ kind := "identifier", start := 58, stop := 64, field := some "object" }, []⟩

/-- The access to the shared logger's constructor of children. -/
def childAccess : Node :=
  ⟨{ kind := "member_expression", start := 58, stop := 70, field := some "function" },
    [usedName, ⟨{ kind := "property_identifier", start := 65, stop := 70, field := some "property" }, []⟩]⟩

/-- The value of the declaration; the namespace takes up this many bytes. -/
def childCall (length : Nat) : Node :=
  ⟨{ kind := "call_expression", start := 58, stop := 91 + length, field := some "value" },
    [childAccess,
      ⟨{ kind := "arguments", start := 70, stop := 91 + length, field := some "arguments" },
        [⟨{ kind := "object", start := 71, stop := 90 + length },
          [⟨{ kind := "pair", start := 73, stop := 88 + length },
            [⟨{ kind := "property_identifier", start := 73, stop := 82, field := some "key" }, []⟩,
              ⟨{ kind := "array", start := 84, stop := 88 + length, field := some "value" },
                [⟨{ kind := "string", start := 85, stop := 87 + length }, []⟩]⟩]⟩]⟩]⟩]⟩

/-- The declarator of the file's own logger. -/
def declarator (length : Nat) : Node :=
  ⟨{ kind := "variable_declarator", start := 43, stop := 91 + length }, [ownName, childCall length]⟩

/-- The declaration of the file's own logger. -/
def ownStatement (length : Nat) : Node :=
  ⟨{ kind := "lexical_declaration", start := 37, stop := 92 + length },
    [⟨{ kind := "const", start := 37, stop := 42, field := some "kind", named := false }, []⟩,
      declarator length]⟩

/-- How many bytes the namespace of a file takes up in the prologue. -/
def namespaceLength (path : String) : Nat :=
  (Utf8.encode (quoteBody (fileNamespace path.toList))).length

/-- The tree of the prologue, as long as no line ends within the namespace. -/
def tree (path : String) : Node :=
  ⟨{ kind := "program", start := 0, stop := 93 + namespaceLength path },
    [importStatement, ownStatement (namespaceLength path)]⟩

/-- The prologue up to the name that its declaration uses. -/
def frontText : String :=
  "import \x7b " ++ loggerName ++ " \x7d from '" ++ importPath ++ "';\nconst " ++ moduleLoggerName ++ " = " ++
    loggerName

theorem exists_render_eq (path : String) : ∃ rest, render path = frontText ++ rest := by
  refine ⟨".child(\x7b namespace: ['" ++ String.ofList (quoteBody (fileNamespace path.toList)) ++
    "'] \x7d);\n", ?_⟩
  unfold render frontText
  simp only [String.append_assoc]

/-- A node in the front of the prologue has the text that it has there. -/
theorem text_bytes (path : String) {node : Node} (h : node.stop ≤ (Utf8.encode frontText.toList).length) :
    node.text (bytes path) = node.text (Utf8.encode frontText.toList) := by
  obtain ⟨rest, hrest⟩ := exists_render_eq path
  rw [bytes, hrest, String.toList_append, Utf8.encode_append, Node.text, Node.text, Node.bytes, Node.bytes,
    List.take_append_of_le_length h]

/-- The import is read as a declaration of the name that it imports. -/
theorem read_importStatement (source : Bytes) (above : List Node) :
    Outline.read source above .expression importStatement =
      Outline.declared source ⟨.importBinding, importStatement, false⟩ importName := by
  have hnames : (importStatement.namedChildren.filter (·.kind == "import_clause")).flatMap
      (fun clause => clause.namedChildren.flatMap Outline.importedNames) = [importName] := by
    rfl
  rw [Outline.read_import rfl, Outline.imported]
  simp only [hnames, List.flatMap_cons, List.flatMap_nil, List.append_nil]

/-- The call has one use in it. -/
theorem read_childCall (source : Bytes) (above : List Node) (length : Nat) :
    Outline.read source above .expression (childCall length) =
      [Outline.useOf source (childAccess :: childCall length :: above) usedName] := by
  rfl

/-- The declaration declares one name and uses another. -/
theorem read_ownStatement (source : Bytes) (above : List Node) (length : Nat) :
    Outline.read source above .expression (ownStatement length) =
      Outline.declared source ⟨.declarator, declarator length, false⟩ ownName ++
        [Outline.useOf source
          (childAccess :: childCall length :: declarator length :: ownStatement length :: above) usedName] := by
  have hread : Outline.read source above .expression (ownStatement length) =
      (Outline.declared source ⟨.declarator, declarator length, false⟩ ownName ++
        Outline.read source (declarator length :: ownStatement length :: above) .expression
          (childCall length)) ++ [] := by
    rfl
  rw [hread, read_childCall, List.append_nil]

/-- **The prologue declares two names and uses one of them.** -/
theorem outline_tree (path : String) :
    outline (bytes path) (tree path) =
      [.declare ⟨.importBinding, importStatement, false⟩ loggerName importName,
        .declare ⟨.declarator, declarator (namespaceLength path), false⟩ moduleLoggerName ownName,
        .use loggerName ⟨usedName, [childAccess, childCall (namespaceLength path),
          declarator (namespaceLength path), ownStatement (namespaceLength path), tree path]⟩] := by
  have hread : outline (bytes path) (tree path) =
      Outline.read (bytes path) [tree path] .expression importStatement ++
        (Outline.read (bytes path) [tree path] .expression (ownStatement (namespaceLength path)) ++ []) := by
    rfl
  have himport : importName.text (bytes path) = loggerName := by
    rw [text_bytes path (by decide +kernel)]
    decide +kernel
  have hown : ownName.text (bytes path) = moduleLoggerName := by
    rw [text_bytes path (by decide +kernel)]
    decide +kernel
  have hused : usedName.text (bytes path) = loggerName := by
    rw [text_bytes path (by decide +kernel)]
    decide +kernel
  rw [hread, read_importStatement, read_ownStatement]
  simp [Outline.declared, Outline.useOf, himport, hown, hused, loggerName, moduleLoggerName]

example : (Item.declarationsAll (outline (bytes "src/a'b.ts") (Script.parse (bytes "src/a'b.ts")))).map
    (fun declaration => (declaration.1.kind, declaration.1.hoisted, declaration.2.1)) =
      [(.importBinding, false, loggerName), (.declarator, false, moduleLoggerName)] := by
  decide +kernel

/-! ## What the prologue declares -/

/-- The definition of the shared logger's name. -/
def importDefinition : Definition :=
  ⟨.importBinding, importName, importStatement⟩

/-- The definition of the file's own logger. -/
def ownDefinition (path : String) : Definition :=
  ⟨.declarator, ownName, declarator (namespaceLength path)⟩

/-- The use of the shared logger. -/
def loggerUse (path : String) : Reference where
  name := loggerName
  site := ⟨usedName, [childAccess, childCall (namespaceLength path), declarator (namespaceLength path),
    ownStatement (namespaceLength path), tree path]⟩
  scope := 1

/-- The arena in which the prologue is read and nothing else. -/
def ahead (path : String) (root : Node) (globals : List String) : Arena :=
  ((ScopeTree.initialArena root globals).declare 1 loggerName importDefinition).declare 1 moduleLoggerName
    (ownDefinition path)

variable (path : String) (root : Node) (globals : List String)

theorem playAll_outline_tree :
    Item.playAll (ScopeTree.initialArena root globals) 1 (outline (bytes path) (tree path)) =
      (ahead path root globals, [loggerUse path]) := by
  rw [outline_tree]
  rfl

theorem skeleton_ahead :
    (ahead path root globals).skeleton = (ScopeTree.initialArena root globals).skeleton := by
  rw [ahead, Arena.skeleton_declare, Arena.skeleton_declare]

/-- Each name has its one definition, in the module's scope. -/
theorem definitions_ahead (name : String) (i : Nat) :
    (ahead path root globals).definitions name i =
      (if name = loggerName ∧ i = 1 then [importDefinition] else []) ++
        if name = moduleLoggerName ∧ i = 1 then [ownDefinition path] else [] := by
  have hone := (ScopeTree.initialArena_rooted root globals).inside_one.2
  rw [ahead, Arena.definitions_declare (by rwa [Arena.size_declare]), Arena.definitions_declare hone,
    ScopeTree.definitions_initialArena, List.nil_append]

theorem definitions_ahead_logger : (ahead path root globals).definitions loggerName 1 = [importDefinition] := by
  have hne : loggerName ≠ moduleLoggerName := by decide
  simp [definitions_ahead, hne]

theorem definitions_ahead_moduleLogger :
    (ahead path root globals).definitions moduleLoggerName 1 = [ownDefinition path] := by
  have hne : moduleLoggerName ≠ loggerName := by decide
  simp [definitions_ahead, hne]

theorem definitions_ahead_inner (name : String) {i : Nat} (hi : 1 < i) :
    (ahead path root globals).definitions name i = [] := by
  have hne : i ≠ 1 := by omega
  simp [definitions_ahead, hne]

end Prologue

namespace Console

/-! ## Files that get the prologue -/

variable {source : Bytes} {root : Node} {globals : List String} {path : String}

/-- Some report of the file inserts the prologue. -/
def AttachesPrologue (source : Bytes) (root : Node) (globals : List String) (path : String) : Prop :=
  ∃ report ∈ reports (.analyze source root globals) path, prologueEdit source root path ∈ report.edits

instance (source : Bytes) (root : Node) (globals : List String) (path : String) :
    Decidable (AttachesPrologue source root globals path) :=
  inferInstanceAs (Decidable (∃ _ ∈ _, _))

/-- The scopes of a file that the prologue stands in front of, and the uses in it. -/
def behindPrologue (source : Bytes) (root : Node) (globals : List String) (path : String) :
    Arena × List Reference :=
  ScopeTree.walkBehind (outline (Prologue.bytes path) (Prologue.tree path)) source root globals

/-- **The prologue is attached only where nothing at the top of the file binds the shared logger's name.** -/
theorem resolve_logger_of_attachesPrologue (h : AttachesPrologue source root globals path) :
    (ScopeTree.analyze source root globals).arena.resolve (some 1) Prologue.loggerName = none := by
  obtain ⟨report, hreport, hedit⟩ := h
  rcases hres : (ScopeTree.analyze source root globals).arena.resolve (some 1) Prologue.loggerName with _ | v
  · rfl
  · -- a report without a lead replaces a call and does nothing else
    have hlead : lead source root globals path = [] := by simp [lead, hres]
    rw [reports_analyze, hlead] at hreport
    obtain ⟨call, -, hedits⟩ := edits_of_mem_reportAll hreport
    rw [hedits, List.mem_singleton] at hedit
    exact absurd hedit (prologueEdit_ne_callEdit source root path call)

theorem behind_behindPrologue (source : Bytes) (root : Node) (globals : List String) (path : String) :
    Arena.Behind (Prologue.ahead path root globals).definitions (ScopeTree.walk source root globals).1
        (behindPrologue source root globals path).1 ∧
      (behindPrologue source root globals path).2 =
        Prologue.loggerUse path :: (ScopeTree.walk source root globals).2 :=
  ScopeTree.walkBehind_eq _ source root globals (Prologue.playAll_outline_tree path root globals)
    (Prologue.skeleton_ahead path root globals)

/-- The calls that the rule finds in a file. -/
def found (tree : ScopeTree) : List Call :=
  match tree.arena.top? with
  | none => []
  | some top => calls tree.source (resolve tree.arena top).references

/-- The reports of a file tell of the calls that are found in it. -/
theorem exists_reports_eq (tree : ScopeTree) (path : String) :
    ∃ lead, reports tree path = reportAll tree.source path lead (found tree) := by
  rw [reports, found]
  rcases tree.arena.top? with _ | top
  · exact ⟨[], rfl⟩
  · exact ⟨_, rfl⟩

/-- A call is found at one of the uses that are searched. -/
theorem reference_mem_of_mem_calls {uses : List Reference} {call : Call} (h : call ∈ calls source uses) :
    call.reference ∈ uses := by
  obtain ⟨use, huse, hcall⟩ := List.mem_filterMap.mp (List.mem_mergeSort.mp h)
  rw [reference_of_call? hcall]
  exact huse

/-- A call that is found stands inside the file. -/
theorem inside_of_mem_found {call : Call} (h : call ∈ found (.analyze source root globals)) :
    (ScopeTree.walk source root globals).1.Inside call.reference.scope := by
  obtain ⟨top, htop, -, target, hrefs⟩ := references_resolve source root globals
  simp only [found, htop] at h
  have hmem := reference_mem_of_mem_calls h
  rw [hrefs] at hmem
  obtain ⟨use, huse, hreference⟩ := List.mem_map.mp hmem
  rw [← hreference]
  exact (ScopeTree.inside_of_mem_walk source root globals (List.mem_filter.mp huse).1).1

/-- **When a rewritten callee denotes the logger of the prologue.** Let the prologue be attached to a file. Then
nothing at the top of the file binds `logger`. Behind the prologue the same uses are met as before, and the
prologue's use of `logger` denotes its import, which is the one definition of the name in the module. The
prologue's `moduleLogger` is the one definition of that name in the module exactly when the module did not bind
it before. And from where a reported call stands, the name denotes this definition and no other exactly when no
scope from there up to the module's bound it before. -/
theorem callee_denotes_prologue_iff (source : Bytes) (root : Node) (globals : List String) (path : String)
    (h : AttachesPrologue source root globals path) :
    let tree := ScopeTree.analyze source root globals
    let behind := behindPrologue source root globals path
    (∃ lead, reports tree path = reportAll source path lead (found tree)) ∧
    tree.arena.resolve (some 1) Prologue.loggerName = none ∧
    behind.2 = Prologue.loggerUse path :: (ScopeTree.walk source root globals).2 ∧
    (∃ v, behind.1.resolve (some (Prologue.loggerUse path).scope) Prologue.loggerName = some v ∧
      v.scope = 1 ∧ v.definitions = [Prologue.importDefinition]) ∧
    (behind.1.definitions Prologue.moduleLoggerName 1 = [Prologue.ownDefinition path] ↔
      tree.arena.lookup? Prologue.moduleLoggerName 1 = none) ∧
    ∀ call ∈ found tree,
      ((∃ v, behind.1.resolve (some call.reference.scope) Prologue.moduleLoggerName = some v ∧
          v.scope = 1 ∧ v.definitions = [Prologue.ownDefinition path]) ↔
        ∀ i ∈ tree.arena.chain (some call.reference.scope), i ≠ 0 →
          tree.arena.lookup? Prologue.moduleLoggerName i = none) := by
  intro tree behind
  obtain ⟨hbehind, huses⟩ := behind_behindPrologue source root globals path
  have hroot := ScopeTree.walk_rooted source root globals
  have hbound := ScopeTree.walk_bound source root globals
  have hbound' : behind.1.Bound := ScopeTree.walkBehind_bound _ source root globals
  have hlogger : tree.arena.resolve (some 1) Prologue.loggerName = none := resolve_logger_of_attachesPrologue h
  have hinner : ∀ name j, 1 < j → (Prologue.ahead path root globals).definitions name j = [] := by
    intro name j hj
    exact Prologue.definitions_ahead_inner path root globals name hj
  refine ⟨exists_reports_eq tree path, hlogger, huses, ?_, ?_, fun call hcall => ?_⟩
  · refine (hbehind.resolve_iff hroot hbound hbound' (Prologue.definitions_ahead_logger path root globals)
      (hinner _) hroot.inside_one).mpr ?_
    intro j hj hne
    rw [hroot.chain_one, List.mem_pair] at hj
    obtain rfl := hj.resolve_right hne
    rw [(ScopeTree.analyze_rooted source root globals).resolve_one, Option.or_eq_none_iff] at hlogger
    exact (ScopeTree.lookup?_analyze_eq_none_iff source root globals _ 1).mp hlogger.1
  · rw [hbehind.definitions, Prologue.definitions_ahead_moduleLogger, List.singleton_append,
      List.cons.injEq, eq_self, true_and, hbound.definitions_eq_nil_iff Nat.one_ne_zero]
    exact (ScopeTree.lookup?_analyze_eq_none_iff source root globals _ 1).symm
  · rw [hbehind.resolve_iff hroot hbound hbound' (Prologue.definitions_ahead_moduleLogger path root globals)
      (hinner _) (inside_of_mem_found hcall)]
    exact (ScopeTree.free_analyze source root globals _ _).symm

/-! ## A call in a function -/

/-- A call in a function whose parameter has a name of its own. -/
def functionSource : Bytes :=
  Utf8.encode "function f(a){console.info(a)}".toList

/-- The scopes of this file. -/
def functionTree : ScopeTree :=
  .analyze functionSource (Script.parse functionSource) []

/-- The callee denotes the logger of the prologue, seen from the function. -/
theorem callee_denotes_prologue_in_function :
    AttachesPrologue functionSource (Script.parse functionSource) [] "a.ts" ∧
    ∃ call ∈ found functionTree, call.reference.scope = 2 ∧
      ∃ v, (behindPrologue functionSource (Script.parse functionSource) [] "a.ts").1.resolve
          (some call.reference.scope) Prologue.moduleLoggerName = some v ∧
        v.scope = 1 ∧ v.definitions = [Prologue.ownDefinition "a.ts"] := by
  -- all of it is read off one tree, so it is computed together
  have hread : AttachesPrologue functionSource (Script.parse functionSource) [] "a.ts" ∧
      ∃ call ∈ found functionTree, call.reference.scope = 2 ∧
        ∀ i ∈ functionTree.arena.chain (some call.reference.scope), i ≠ 0 →
          (functionTree.arena.lookup? Prologue.moduleLoggerName i).isNone := by
    decide +kernel
  obtain ⟨hattached, call, hcall, hscope, hfree⟩ := hread
  have hdenotes := (callee_denotes_prologue_iff functionSource (Script.parse functionSource) [] "a.ts"
    hattached).2.2.2.2.2 call hcall
  refine ⟨hattached, call, hcall, hscope, hdenotes.mpr fun i hi hne => ?_⟩
  exact Option.isNone_iff_eq_none.mp (hfree i hi hne)

/-- A file whose top declares the name, and a call in a function whose parameter has the name as well. -/
def capturedSource : Bytes :=
  Utf8.encode "let moduleLogger;function f(moduleLogger){console.info(1)}".toList

/-- The scopes of this file. -/
def capturedTree : ScopeTree :=
  .analyze capturedSource (Script.parse capturedSource) []

/-- **The prologue is attached to a file that binds its name.** Scopes on the way from the call to the top bind the
name. Behind the prologue the parameter captures the callee, and the module has two declarations. -/
theorem callee_captured :
    ¬(AttachesPrologue capturedSource (Script.parse capturedSource) [] "a.ts" →
      ∀ call ∈ found capturedTree, ∀ i ∈ capturedTree.arena.chain (some call.reference.scope), i ≠ 0 →
        capturedTree.arena.lookup? Prologue.moduleLoggerName i = none) ∧
    (∃ call ∈ found capturedTree,
      ((behindPrologue capturedSource (Script.parse capturedSource) [] "a.ts").1.resolve
        (some call.reference.scope) Prologue.moduleLoggerName).map (·.scope) = some 2) ∧
    ((behindPrologue capturedSource (Script.parse capturedSource) [] "a.ts").1.definitions
      Prologue.moduleLoggerName 1).length = 2 := by
  have hread : AttachesPrologue capturedSource (Script.parse capturedSource) [] "a.ts" ∧
      (∃ call ∈ found capturedTree, ∃ i ∈ capturedTree.arena.chain (some call.reference.scope), i ≠ 0 ∧
        (capturedTree.arena.lookup? Prologue.moduleLoggerName i).isSome) ∧
      (∃ call ∈ found capturedTree,
        ((behindPrologue capturedSource (Script.parse capturedSource) [] "a.ts").1.resolve
          (some call.reference.scope) Prologue.moduleLoggerName).map (·.scope) = some 2) ∧
      ((behindPrologue capturedSource (Script.parse capturedSource) [] "a.ts").1.definitions
        Prologue.moduleLoggerName 1).length = 2 := by
    decide +kernel
  obtain ⟨hattached, ⟨call, hcall, i, hi, hne, hsome⟩, hcaptured, htwice⟩ := hread
  refine ⟨fun hclaim => ?_, hcaptured, htwice⟩
  rw [hclaim hattached call hcall i hi hne] at hsome
  cases hsome

end Console

end LoggerLint
