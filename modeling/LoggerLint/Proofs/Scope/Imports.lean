import LoggerLint.Proofs.Scope.Finished

/-!
# Names that a file imports

An import among the statements of a file binds its names at the top of the file, wherever it stands and
whatever stands around it (`ScopeTree.isSome_resolve_of_imports`). The import is read as declarations of its
local names (`mem_outline_of_imports`), one of them binds its name in the current scope, and nothing that is
played later takes a binding away (`Item.isSome_lookup?_playAll`).
-/

namespace LoggerLint

/-! ## Imports -/

/-- One part of an import clause binds a local name. -/
inductive ImportsLocal (source : Bytes) (name : String) : (item : Node) → Prop where
  /-- the default export, under this name -/
  | byDefault {item : Node} (hkind : item.kind = "identifier") (htext : item.text source = name) :
      ImportsLocal source name item
  /-- all exports together, under this name -/
  | everything {item id : Node} (hkind : item.kind = "namespace_import") (hchild : id ∈ item.namedChildren)
      (hid : id.kind = "identifier") (htext : id.text source = name) : ImportsLocal source name item
  /-- the export of this name -/
  | byName {item specifier id : Node} (hkind : item.kind = "named_imports")
      (hchild : specifier ∈ item.namedChildren) (hspecifier : specifier.kind = "import_specifier")
      (halias : specifier.child? "alias" = none) (hname : specifier.child? "name" = some id)
      (hid : id.kind = "identifier") (htext : id.text source = name) : ImportsLocal source name item
  /-- some export, under this name instead of its own -/
  | renamed {item specifier id : Node} (hkind : item.kind = "named_imports")
      (hchild : specifier ∈ item.namedChildren) (hspecifier : specifier.kind = "import_specifier")
      (halias : specifier.child? "alias" = some id) (hid : id.kind = "identifier")
      (htext : id.text source = name) : ImportsLocal source name item

/-- One of the statements below the root is an import whose clause binds a local name. -/
def Imports (source : Bytes) (root : Node) (name : String) : Prop :=
  ∃ statement ∈ root.namedChildren, statement.kind = "import_statement" ∧
    ∃ clause ∈ statement.namedChildren, clause.kind = "import_clause" ∧
      ∃ item ∈ clause.namedChildren, ImportsLocal source name item

namespace Outline

variable {source : Bytes} {name : String}

/-- The names that a part of an import clause is read as are the ones it binds. -/
theorem importsLocal_iff {item : Node} :
    ImportsLocal source name item ↔ ∃ id ∈ importedNames item, id.text source = name := by
  constructor
  · intro h
    cases h with
    | byDefault hkind htext => exact ⟨item, by simp [importedNames, hkind], htext⟩
    | everything hkind hchild hid htext =>
      refine ⟨_, ?_, htext⟩
      simp only [importedNames, hkind, List.mem_filter]
      exact ⟨hchild, beq_iff_eq.mpr hid⟩
    | byName hkind hchild hspecifier halias hname hid htext =>
      refine ⟨_, ?_, htext⟩
      simp only [importedNames, hkind, List.mem_filterMap]
      exact ⟨_, hchild, by simp [localName?, hspecifier, halias, hname, hid]⟩
    | renamed hkind hchild hspecifier halias hid htext =>
      refine ⟨_, ?_, htext⟩
      simp only [importedNames, hkind, List.mem_filterMap]
      exact ⟨_, hchild, by simp [localName?, hspecifier, halias, hid]⟩
  · rintro ⟨id, hid, htext⟩
    rw [importedNames] at hid
    split at hid
    · rename_i hkind
      obtain rfl := List.mem_singleton.mp hid
      exact .byDefault hkind htext
    · rename_i hkind
      obtain ⟨hchild, hid⟩ := List.mem_filter.mp hid
      exact .everything hkind hchild (beq_iff_eq.mp hid) htext
    · rename_i hkind
      obtain ⟨specifier, hchild, hlocal⟩ := List.mem_filterMap.mp hid
      rw [localName?] at hlocal
      split at hlocal
      · rename_i hspecifier
        obtain ⟨hfound, hid⟩ := Option.filter_eq_some_iff.mp hlocal
        rcases halias : specifier.child? "alias" with _ | aliasId
        · rw [halias, Option.none_or] at hfound
          exact .byName hkind hchild (beq_iff_eq.mp hspecifier) halias hfound (beq_iff_eq.mp hid) htext
        · rw [halias, Option.some_or] at hfound
          obtain rfl := Option.some.inj hfound
          exact .renamed hkind hchild (beq_iff_eq.mp hspecifier) halias (beq_iff_eq.mp hid) htext
      · cases hlocal
    · cases hid

instance (source : Bytes) (name : String) (item : Node) : Decidable (ImportsLocal source name item) :=
  decidable_of_iff _ importsLocal_iff.symm

instance (source : Bytes) (root : Node) (name : String) : Decidable (Imports source root name) :=
  inferInstanceAs (Decidable (∃ _ ∈ _, _))

/-- What a node of the list is read as is among what the list is read as. -/
theorem mem_readAll {above : List Node} {role : Role} {item : Item} {nodes : List Node} {node : Node}
    (hnode : node ∈ nodes) (hnamed : node.named = true) (hitem : item ∈ read source above role node) :
    item ∈ readAll source above role nodes := by
  induction nodes with
  | nil => cases hnode
  | cons first rest ih =>
    rw [readAll, List.mem_append]
    rcases List.mem_cons.mp hnode with rfl | hnode
    · rw [if_pos hnamed]
      exact .inl hitem
    · exact .inr (ih hnode)

theorem read_import {above : List Node} {node : Node} (hkind : node.kind = "import_statement") :
    read source above .expression node = imported source node := by
  obtain ⟨label, children⟩ := node
  have hlabel : label.kind = "import_statement" := hkind
  rw [read]
  simp only [Role.patternForm, hlabel]
  rfl

end Outline

/-- **An import is read as declarations of its local names**, which belong to the scope that it stands in. -/
theorem mem_outline_of_imports {source : Bytes} {root : Node} {name : String} (hname : name ≠ "")
    (h : Imports source root name) :
    ∃ binder id, binder.hoisted = false ∧ .declare binder name id ∈ outline source root := by
  obtain ⟨statement, hstatement, hkind, clause, hclause, hclauseKind, item, hitem, hlocal⟩ := h
  obtain ⟨id, hid, rfl⟩ := Outline.importsLocal_iff.mp hlocal
  obtain ⟨hchild, hnamed⟩ := List.mem_filter.mp hstatement
  refine ⟨⟨.importBinding, statement, false⟩, id, rfl, Outline.mem_readAll hchild hnamed ?_⟩
  rw [Outline.read_import hkind]
  refine List.mem_flatMap.mpr ⟨id, List.mem_flatMap.mpr ⟨clause, ?_, ?_⟩, ?_⟩
  · exact List.mem_filter.mpr ⟨hclause, beq_iff_eq.mpr hclauseKind⟩
  · exact List.mem_flatMap.mpr ⟨item, hitem, hid⟩
  · rw [Outline.declared, if_neg hname]
    exact List.mem_singleton_self _

/-! ## Bindings that stay -/

namespace Arena

/-- A name that is declared in a scope is bound there. -/
theorem isSome_lookup?_declare_self {a : Arena} {i : Nat} (hi : i < a.size) (name : String)
    (definition : Definition) : ((a.declare i name definition).lookup? name i).isSome := by
  obtain ⟨s, hs⟩ := exists_get?_of_lt hi
  simp [declare, lookup?, get?_modify_self, hs]

/-- A declaration takes no binding away. -/
theorem isSome_lookup?_declare {a : Arena} {other : String} {j : Nat} (h : (a.lookup? other j).isSome)
    (i : Nat) (name : String) (definition : Definition) :
    ((a.declare i name definition).lookup? other j).isSome := by
  obtain ⟨v, hv⟩ := Option.isSome_iff_exists.mp h
  obtain ⟨s, hs, -⟩ := Option.bind_eq_some_iff.mp hv
  by_cases hsame : i = j ∧ other = name
  · obtain ⟨rfl, rfl⟩ := hsame
    exact isSome_lookup?_declare_self (lt_size_of_get? hs) other definition
  · have hkept : (a.declare i name definition).lookup? other j = a.lookup? other j := by
      by_cases hij : i = j
      · subst hij
        have hne : other ≠ name := fun hname => hsame ⟨rfl, hname⟩
        simp [declare, lookup?, get?_modify_self, hs, Bindings.get?_alter_ne _ _ _ hne]
      · rw [declare, lookup?, get?_modify_ne _ _ hij, ← lookup?]
    rw [hkept]
    exact h

end Arena

namespace Item

open Arena

/-- What is bound stays bound while items are played. -/
theorem isSome_lookup?_playAll {a : Arena} {i j : Nat} {name : String} (hi : a.Inside i)
    (h : (a.lookup? name j).isSome) (items : List Item) :
    ((playAll a i items).1.lookup? name j).isSome := by
  refine (playAll_preserves (P := fun a => (a.lookup? name j).isSome) ?_ ?_ a i h hi items).1
  · intro a kind node p h _
    rw [lookup?_openScope]
    exact h
  · intro a i binder other node h _
    exact isSome_lookup?_declare h _ _ _

/-- **A declaration among items binds its name** in the scope they are played from, whatever comes before
and after it. -/
theorem isSome_lookup?_of_mem {a : Arena} {i : Nat} (hi : a.Inside i) {binder : Binder} {name : String}
    {id : Node} (hhere : binder.hoisted = false) {items : List Item}
    (h : .declare binder name id ∈ items) : ((playAll a i items).1.lookup? name i).isSome := by
  induction items generalizing a with
  | nil => cases h
  | cons item rest ih =>
    have hi' := hi.mono (size_le_play hi item)
    rcases List.mem_cons.mp h with rfl | h
    · refine isSome_lookup?_playAll hi' ?_ rest
      simp only [play, enter, hhere]
      exact isSome_lookup?_declare_self hi.2 name _
    · exact ih hi' h

end Item

/-- **What a file imports is bound at its top.** -/
theorem ScopeTree.isSome_resolve_of_imports {source : Bytes} {root : Node} {name : String}
    (hname : name ≠ "") (h : Imports source root name) (globals : List String) :
    ((analyze source root globals).arena.resolve (some 1) name).isSome := by
  obtain ⟨binder, id, hhere, hmem⟩ := mem_outline_of_imports hname h
  have hbound : ((walk source root globals).1.lookup? name 1).isSome :=
    Item.isSome_lookup?_of_mem (initialArena_rooted root globals).inside_one hhere hmem
  rw [isSome_resolve_analyze, hbound, Bool.true_or]

end LoggerLint
