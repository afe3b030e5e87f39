import LoggerLint.Proofs.Scope.Ambient
import LoggerLint.Proofs.Scope.Outline
import Mathlib.Logic.Relation

/-!
# The finished arena

What reading a file leaves: the arena of `ScopeTree.analyze`. Settling the uses changes no scope, so its
shape is that of the arena in which the uses were met, and what is free there is free here.

`ScopeTree.scopes_form_tree` says what this shape is. The indices tell the whole tree: who stands in whom, in
which order, and which scopes are the outermost one and the module's. The kinds of scope come from the
outline (`ScopeTree.kinds_walk`), which opens neither another outermost scope nor another module.
-/

namespace LoggerLint

namespace ScopeTree

variable (source : Bytes) (root : Node) (globals : List String)

theorem arena_analyze :
    (analyze source root globals).arena =
      (walk source root globals).2.foldl Arena.settle (walk source root globals).1 := rfl

theorem skeleton_analyze :
    (analyze source root globals).arena.skeleton = (walk source root globals).1.skeleton :=
  Arena.skeleton_settleAll _ _

theorem analyze_rooted : (analyze source root globals).arena.Rooted :=
  (walk_rooted source root globals).of_skeleton (skeleton_analyze source root globals).symm

theorem lookup?_analyze_eq_none_iff (name : String) (i : Nat) :
    (analyze source root globals).arena.lookup? name i = none ↔
      (walk source root globals).1.lookup? name i = none :=
  Arena.lookup?_settleAll_eq_none_iff (walk_bound source root globals) _ name i

/-- Settling does not change which names are free. -/
theorem free_analyze (name : String) (i : Nat) :
    (analyze source root globals).arena.Free name i ↔ (walk source root globals).1.Free name i :=
  Arena.free_congr (skeleton_analyze source root globals)
    (fun j _ => lookup?_analyze_eq_none_iff source root globals name j) i

theorem isSome_lookup?_analyze (name : String) (i : Nat) :
    ((analyze source root globals).arena.lookup? name i).isSome =
      ((walk source root globals).1.lookup? name i).isSome := by
  have hiff := lookup?_analyze_eq_none_iff source root globals name i
  rw [Bool.eq_iff_iff, Option.isSome_iff_ne_none, Option.isSome_iff_ne_none, Ne, Ne, hiff]

/-- Seen from the top of the file, a name is bound by the module or ambient. -/
theorem isSome_resolve_analyze (name : String) :
    ((analyze source root globals).arena.resolve (some 1) name).isSome =
      (((walk source root globals).1.lookup? name 1).isSome || decide (name ∈ globals)) := by
  rw [(analyze_rooted source root globals).resolve_one, Option.isSome_or, isSome_lookup?_analyze,
    isSome_lookup?_analyze, lookup?_walk_zero]
  by_cases hname : name ∈ globals
  · simp [hname]
  · simp [hname]

end ScopeTree

/-! ## Kinds of scope -/

/-- The kinds of the scopes, in order. -/
def Arena.kinds (a : Arena) : List ScopeKind :=
  a.scopes.map (·.kind)

namespace Arena

theorem getElem?_kinds (a : Arena) (i : Nat) : a.kinds[i]? = (a.get? i).map (·.kind) := by
  simp [kinds, get?]

theorem kinds_of_skeleton {a b : Arena} (h : a.skeleton = b.skeleton) : a.kinds = b.kinds := by
  have hfst := congrArg (List.map Prod.fst) h
  simpa [skeleton, kinds, List.map_map, Function.comp_def] using hfst

theorem kinds_openScope (a : Arena) (kind : ScopeKind) (node : Node) (p : Nat) :
    (a.openScope kind node (some p)).kinds = a.kinds ++ [kind] :=
  map_openScope_of_unseen a kind node p fun _ => rfl

end Arena

namespace Item

mutual

/-- The kinds of the scopes that an item opens, in order. -/
def kinds : Item → List ScopeKind
  | .use _ _ => []
  | .declare _ _ _ => []
  | .scope kind _ items => kind :: kindsAll items
termination_by structural item => item

/-- The kinds of the scopes that items open, in order. -/
def kindsAll : List Item → List ScopeKind
  | [] => []
  | item :: rest => kinds item ++ kindsAll rest
termination_by structural items => items

end

theorem kindsAll_append (items more : List Item) :
    kindsAll (items ++ more) = kindsAll items ++ kindsAll more := by
  induction items with
  | nil => rfl
  | cons item rest ih => simp [kindsAll, ih]

mutual

theorem kinds_play (a : Arena) (i : Nat) :
    (item : Item) → (play a i item).1.kinds = a.kinds ++ kinds item
  | .use _ _ => (List.append_nil _).symm
  | .declare binder name node => by
    rw [kinds, List.append_nil]
    exact Arena.kinds_of_skeleton (skeleton_enter a i binder name node)
  | .scope kind node items => by
    have hinner := kinds_playAll (a.openScope kind node (some i)) a.size items
    rw [Arena.kinds_openScope, List.append_assoc] at hinner
    exact hinner

/-- **Playing items appends the scopes they open**, and changes the kind of none. -/
theorem kinds_playAll (a : Arena) (i : Nat) :
    (items : List Item) → (playAll a i items).1.kinds = a.kinds ++ kindsAll items
  | [] => (List.append_nil _).symm
  | item :: rest => by
    have hfirst := kinds_play a i item
    have hrest := kinds_playAll (play a i item).1 i rest
    rw [hfirst, List.append_assoc] at hrest
    exact hrest

end

/-- An outline opens neither another outermost scope nor another module. -/
theorem inner_of_mem_kindsAll_outline {source : Bytes} {root : Node} {kind : ScopeKind}
    (h : kind ∈ kindsAll (outline source root)) : kind ≠ .global ∧ kind ≠ .module := by
  revert h
  refine outline_of_closed (P := fun items => kind ∈ kindsAll items →
    kind ≠ .global ∧ kind ≠ .module) ⟨?_, ?_, ?_, ?_, ?_⟩
  · intro h
    cases h
  · intro items more hitems hmore h
    rw [kindsAll_append, List.mem_append] at h
    exact h.elim hitems hmore
  · intro node above _ h
    cases h
  · intro binder nameNode _ h
    cases h
  · intro opened node items hglobal hmodule hitems h
    simp only [kindsAll, kinds, List.append_nil, List.mem_cons] at h
    rcases h with rfl | h
    · exact ⟨hglobal, hmodule⟩
    · exact hitems h

end Item

namespace ScopeTree

variable (source : Bytes) (root : Node) (globals : List String)

theorem kinds_walk :
    (walk source root globals).1.kinds =
      .global :: .module :: Item.kindsAll (outline source root) := by
  rw [walk, Item.kinds_playAll, initialArena_eq]
  rfl

/-- The first scope is the outermost one, the second the module's, and every other is a scope of the
file. -/
theorem kind_analyze {i : Nat} {s : Scope} (hs : (analyze source root globals).arena.get? i = some s) :
    (s.kind = .global ↔ i = 0) ∧ (s.kind = .module ↔ i = 1) := by
  have hkind : (ScopeKind.global :: .module :: Item.kindsAll (outline source root))[i]? =
      some s.kind := by
    rw [← kinds_walk source root globals,
      ← Arena.kinds_of_skeleton (skeleton_analyze source root globals), Arena.getElem?_kinds, hs]
    rfl
  match i with
  | 0 =>
    have hzero := Option.some.inj hkind
    simp [← hzero]
  | 1 =>
    have hone := Option.some.inj hkind
    simp [← hone]
  | i + 2 =>
    obtain ⟨hglobal, hmodule⟩ := Item.inner_of_mem_kindsAll_outline (List.mem_of_getElem? hkind)
    simp [hglobal, hmodule]

end ScopeTree

/-! ## The tree -/

namespace Arena

/-- The scope at `i` stands directly in the one at `p`. -/
def StandsIn (a : Arena) (i p : Nat) : Prop :=
  ∃ s, a.get? i = some s ∧ s.parent = some p

theorem Descending.lt_of_transGen {a : Arena} (hdesc : a.Descending) {i p : Nat}
    (h : Relation.TransGen a.StandsIn i p) : p < i := by
  induction h with
  | single hstep =>
    obtain ⟨s, hs, hp⟩ := hstep
    exact hdesc _ s _ hs hp
  | tail _ hstep ih =>
    obtain ⟨s, hs, hp⟩ := hstep
    exact Nat.lt_trans (hdesc _ s _ hs hp) ih

namespace Rooted

variable {a : Arena} (hroot : a.Rooted)

include hroot

theorem parent_eq_none_iff {i : Nat} {s : Scope} (hs : a.get? i = some s) :
    s.parent = none ↔ i = 0 := by
  obtain ⟨g, hg, hgp⟩ := hroot.outermost
  obtain ⟨m, hm, -, hmp⟩ := hroot.module
  match i with
  | 0 =>
    obtain rfl := Option.some.inj (hg.symm.trans hs)
    simp [hgp]
  | 1 =>
    obtain rfl := Option.some.inj (hm.symm.trans hs)
    simp [hmp]
  | i + 2 =>
    obtain ⟨p, hp, -⟩ := hroot.nested (i + 2) s hs (by omega)
    simp [hp]

theorem mem_children_iff {i j : Nat} {s : Scope} (hs : a.get? i = some s) :
    j ∈ s.children ↔ a.StandsIn j i := by
  rw [hroot.children i s hs, List.mem_filter, List.mem_range, beq_iff_eq, Option.bind_eq_some_iff]
  constructor
  · exact fun h => h.2
  · intro h
    obtain ⟨t, ht, -⟩ := id h
    exact ⟨lt_size_of_get? ht, h⟩

theorem children_pairwise {i : Nat} {s : Scope} (hs : a.get? i = some s) :
    s.children.Pairwise (· < ·) := by
  rw [hroot.children i s hs]
  exact List.Pairwise.filter _ List.pairwise_lt_range

/-- **Every way up ends at the outermost scope.** -/
theorem reaches_outermost {i : Nat} (hi : i < a.size) : Relation.ReflTransGen a.StandsIn i 0 := by
  induction i using Nat.strongRecOn with
  | ind i ih =>
    obtain ⟨s, hs⟩ := exists_get?_of_lt hi
    rcases hp : s.parent with _ | p
    · obtain rfl := (hroot.parent_eq_none_iff hs).mp hp
      exact .refl
    · have hlt := hroot.descending i s p hs hp
      exact .head ⟨s, hs, hp⟩ (ih p hlt (Nat.lt_trans hlt hi))

end Rooted

end Arena

/-- **The scopes of a file form a tree that their indices tell**, whatever the syntax tree is. Scope `0` is
the one global scope and the only one that stands in no other; scope `1` is the one scope of a module,
stands in scope `0` and is what the top of the file names; every other scope stands in an earlier one that
is not the outermost. The children of a scope are the scopes that stand in it, each once and in order. No
way up goes in a circle, and every one ends at scope `0`. -/
theorem ScopeTree.scopes_form_tree (source : Bytes) (root : Node) (globals : List String) :
    let arena := (analyze source root globals).arena
    2 ≤ arena.size ∧
    (∀ i s, arena.get? i = some s →
      s.index = i ∧
      (s.kind = .global ↔ i = 0) ∧ (s.parent = none ↔ i = 0) ∧
      (s.kind = .module ↔ i = 1) ∧ (i = 1 → s.parent = some 0) ∧
      (2 ≤ i → ∃ p, s.parent = some p ∧ 1 ≤ p ∧ p < i) ∧
      (∀ j, j ∈ s.children ↔ ∃ t, arena.get? j = some t ∧ t.parent = some i) ∧
      s.children.Pairwise (· < ·)) ∧
    (∃ outermost, arena.get? 0 = some outermost ∧ arena.top? = some ⟨outermost, some 1⟩) ∧
    (∀ i, ¬ Relation.TransGen arena.StandsIn i i) ∧
    ∀ i < arena.size, Relation.ReflTransGen arena.StandsIn i 0 := by
  intro arena
  have hroot : arena.Rooted := analyze_rooted source root globals
  refine ⟨hroot.two_le_size, fun i s hs => ?_, hroot.top?_eq, ?_, fun i => hroot.reaches_outermost⟩
  · obtain ⟨hglobal, hmodule⟩ := kind_analyze source root globals hs
    refine ⟨hroot.indexed i s hs, hglobal, hroot.parent_eq_none_iff hs, hmodule, ?_,
      hroot.nested i s hs, fun j => hroot.mem_children_iff hs, hroot.children_pairwise hs⟩
    rintro rfl
    obtain ⟨m, hm, -, hzero⟩ := hroot.module
    obtain rfl := Option.some.inj (hm.symm.trans hs)
    exact hzero
  · intro i hcircle
    exact Nat.lt_irrefl i (hroot.descending.lt_of_transGen hcircle)

end LoggerLint
