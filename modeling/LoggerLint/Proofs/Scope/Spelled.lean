import LoggerLint.Console.Resolution
import LoggerLint.Proofs.Scope.Partition

/-!
# Where bindings come from

What a scope of the file binds was declared there: a variable is bound under the name that each of its
definitions spells, and it has at least one (`Arena.Spelled`). Only the ambient globals of the outermost
scope have none, because no declaration, hoisted or not, gets out of the module. So whether a variable
has definitions tells where it comes from, which is all that the rule looks at to tell a console that the
file declares from the ambient one (`ScopeTree.bindings_spelled`).

The names of an outline are spelled by their nodes (`spelled_of_mem_declarations`); entering such a
declaration keeps the arena spelled, and the rest is the induction over outlines.
-/

namespace LoggerLint

/-- The declarations of an outline have names, which their nodes spell. -/
theorem spelled_of_mem_declarations {source : Bytes} {root : Node} {binder : Binder} {name : String}
    {nameNode : Node} (h : (binder, name, nameNode) ∈ Item.declarationsAll (outline source root)) :
    name ≠ "" ∧ nameNode.text source = name := by
  revert h
  refine outline_of_closed (P := fun items => (binder, name, nameNode) ∈ Item.declarationsAll items →
    name ≠ "" ∧ nameNode.text source = name) ⟨?_, ?_, ?_, ?_, ?_⟩
  · intro h
    cases h
  · intro items more hitems hmore h
    rw [Item.declarationsAll_append, List.mem_append] at h
    exact h.elim hitems hmore
  · intro node above _ h
    cases h
  · intro other node htext h
    obtain ⟨rfl, rfl, rfl⟩ : binder = other ∧ name = node.text source ∧ nameNode = node := by
      simpa [Item.declarationsAll, Item.declarations] using h
    exact ⟨htext, rfl⟩
  · intro kind node items _ _ hitems h
    exact hitems (by simpa [Item.declarationsAll, Item.declarations] using h)

namespace Arena

/-! ## Definitions that spell their names -/

/-- What is bound inside the file has a name, and its definitions spell it. -/
structure Spelled (source : Bytes) (a : Arena) : Prop where
  /-- nothing is bound without a name -/
  named : ∀ name i v, a.lookup? name i = some v → i ≠ 0 → name ≠ ""
  /-- a definition spells the name under which it is entered -/
  spelled : ∀ name i v, a.lookup? name i = some v → ∀ d ∈ v.definitions, d.nameNode.text source = name

variable {source : Bytes} {a : Arena}

theorem Spelled.openScope (hspelled : a.Spelled source) (kind : ScopeKind) (node : Node) (p : Nat) :
    (a.openScope kind node (some p)).Spelled source := by
  refine ⟨?_, ?_⟩
  · intro name i v hv
    exact hspelled.named name i v (lookup?_openScope a kind node p name i ▸ hv)
  · intro name i v hv
    exact hspelled.spelled name i v (lookup?_openScope a kind node p name i ▸ hv)

/-- A declaration that is spelled by its node keeps the arena spelled, wherever it is entered. -/
theorem Spelled.declare (hspelled : a.Spelled source) (i : Nat) {name : String} {definition : Definition}
    (hname : name ≠ "") (htext : definition.nameNode.text source = name) :
    (a.declare i name definition).Spelled source := by
  refine ⟨?_, ?_⟩
  · intro other j v hv hj
    rcases lookup?_declare_cases hv with hold | ⟨rfl, -, -⟩
    · exact hspelled.named other j v hold hj
    · exact hname
  · intro other j v hv d hd
    rcases lookup?_declare_cases hv with hold | ⟨rfl, rfl, old, hold, rfl⟩
    · exact hspelled.spelled other j v hold d hd
    · rcases List.mem_append.mp hd with hd | hd
      · rcases hold with hold | rfl
        · exact hspelled.spelled other j old hold d hd
        · cases hd
      · rw [List.mem_singleton.mp hd]
        exact htext

/-- Settling uses changes no definition. -/
theorem Spelled.settleAll (hspelled : a.Spelled source) (hbound : a.Bound) (uses : List Reference) :
    (uses.foldl Arena.settle a).Spelled source := by
  have hold : ∀ {name i v}, (uses.foldl Arena.settle a).lookup? name i = some v →
      ∃ old, a.lookup? name i = some old ∧ v.definitions = old.definitions := by
    intro name i v hv
    rw [lookup?_settleAll hbound] at hv
    obtain ⟨old, hold, rfl⟩ := Option.map_eq_some_iff.mp hv
    exact ⟨old, hold, rfl⟩
  refine ⟨?_, ?_⟩
  · intro name i v hv
    obtain ⟨old, hlookup, -⟩ := hold hv
    exact hspelled.named name i old hlookup
  · intro name i v hv d hd
    obtain ⟨old, hlookup, hdefs⟩ := hold hv
    rw [hdefs] at hd
    exact hspelled.spelled name i old hlookup d hd

end Arena

/-! ## Whole files -/

namespace ScopeTree

variable (source : Bytes) (root : Node) (globals : List String)

theorem initialArena_spelled : (initialArena root globals).Spelled source := by
  refine ⟨?_, ?_⟩
  · intro name i v hv hi
    exact absurd (lookup?_initialArena_some hv).1 hi
  · intro name i v hv d hd
    obtain ⟨-, rfl⟩ := lookup?_initialArena_some hv
    cases hd

theorem walk_spelled : (walk source root globals).1.Spelled source := by
  refine (Item.playAll_keeps _ 1 (initialArena_spelled source root globals)
    (initialArena_rooted root globals).inside_one ?_ (outline source root) ?_).1
  · exact fun a kind node p h _ => h.openScope kind node p
  · intro a i binder name nameNode hmem hspelled _
    obtain ⟨hname, htext⟩ := spelled_of_mem_declarations hmem
    exact hspelled.declare _ hname htext

theorem analyze_spelled : (analyze source root globals).arena.Spelled source :=
  (walk_spelled source root globals).settleAll (walk_bound source root globals) _

/-- The outermost scope binds the ambient globals and nothing else. -/
theorem isSome_lookup?_analyze_zero (name : String) :
    ((analyze source root globals).arena.lookup? name 0).isSome = decide (name ∈ globals) := by
  rw [isSome_lookup?_analyze, lookup?_walk_zero]
  by_cases hname : name ∈ globals
  · simp [hname]
  · simp [hname]

/-- The file declares the console itself exactly when its module binds the name; otherwise it is ambient
or nothing. -/
theorem binding_resolve_console {top : Arena.Top} (hmodule : top.module? = some 1) :
    (Console.resolve (analyze source root globals).arena top).binding =
      if ((analyze source root globals).arena.lookup? Console.globalName 1).isSome then .shadowed
      else if Console.globalName ∈ globals then .ambient
      else .unresolved := by
  have hbound := analyze_bound source root globals
  have hzero := isSome_lookup?_analyze_zero source root globals Console.globalName
  rw [Console.resolve, hmodule, (analyze_rooted source root globals).resolve_one]
  rcases hone : (analyze source root globals).arena.lookup? Console.globalName 1 with _ | v
  · rcases hout : (analyze source root globals).arena.lookup? Console.globalName 0 with _ | v
    · rw [hout] at hzero
      have hnone : Console.globalName ∉ globals := by simpa using hzero
      simp [hnone]
    · rw [hout] at hzero
      have hambient : Console.globalName ∈ globals := by simpa using hzero
      simp [hambient, hbound.ambient _ _ hout]
  · simp [hbound.declared _ _ _ hone Nat.one_ne_zero]

/-- **Bindings come from what spells them.** In the arena of any tree the variables of a scope stand under
distinct names, and each knows its name and its scope. The outermost scope binds the ambient globals, each
once, and they have no definition. In every other scope a variable has a name and at least one definition,
and each of its definitions spells the name. So a variable without definitions is an ambient global, and
the console is taken for declared, ambient or unbound accordingly. -/
theorem bindings_spelled :
    (∀ i s, (analyze source root globals).arena.get? i = some s →
      (s.bindings.map Prod.fst).Nodup ∧
      ∀ key v, (key, v) ∈ s.bindings →
        v.name = key ∧ v.scope = i ∧ (v.definitions = [] ↔ i = 0) ∧
        (i ≠ 0 → v.name ≠ "" ∧ ∀ d ∈ v.definitions, d.nameNode.text source = v.name)) ∧
    ∃ outermost, (analyze source root globals).arena.get? 0 = some outermost ∧
      (analyze source root globals).arena.top? = some ⟨outermost, some 1⟩ ∧
      (∀ name, name ∈ outermost.bindings.map Prod.fst ↔ name ∈ globals) ∧
      (Console.resolve (analyze source root globals).arena ⟨outermost, some 1⟩).binding =
        if ((analyze source root globals).arena.lookup? Console.globalName 1).isSome then .shadowed
        else if Console.globalName ∈ globals then .ambient
        else .unresolved := by
  have hbound := analyze_bound source root globals
  have hdistinct := analyze_distinct source root globals
  have hspelled := analyze_spelled source root globals
  obtain ⟨outermost, hzero, htop⟩ := (analyze_rooted source root globals).top?_eq
  refine ⟨fun i s hs => ⟨hdistinct i s hs, fun key v hmem => ?_⟩, outermost, hzero, htop, fun name => ?_,
    binding_resolve_console source root globals rfl⟩
  · have hlookup := hdistinct.lookup?_of_mem hs hmem
    obtain ⟨rfl, hscope⟩ := hbound.placed key i v hlookup
    refine ⟨rfl, hscope, ⟨fun hnone => ?_, ?_⟩, fun hi => ?_⟩
    · exact Decidable.byContradiction fun hi => hbound.declared _ i v hlookup hi hnone
    · rintro rfl
      exact hbound.ambient _ v hlookup
    · exact ⟨hspelled.named _ i v hlookup hi, hspelled.spelled _ i v hlookup⟩
  · have hiff := isSome_lookup?_analyze_zero source root globals name
    have hget : (analyze source root globals).arena.lookup? name 0 = outermost.bindings.lookup name := by
      rw [Arena.lookup?, hzero]
      rfl
    rw [← decide_eq_true_iff (p := name ∈ globals), ← hiff, hget, List.lookup_isSome_iff]
    simp

end ScopeTree

end LoggerLint
