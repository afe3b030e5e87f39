import LoggerLint.Proofs.Scope.Finished

/-!
# A file with declarations in front

Declarations that are put in front of a file, at its top, change nothing in how the file is read: the same
scopes open, the same uses are met in them, and every scope has the same definitions as before, behind those in
front (`Item.playAll_behind`, and `ScopeTree.walkBehind_eq` for a whole file). What the names mean may change
all the same. `Arena.Behind.resolve_iff` says for a name that is declared in front which uses denote that
declaration and no other: those that no scope of the file bound before.
-/

namespace LoggerLint

namespace Arena

variable {a b : Arena}

/-! ## Definitions of a name -/

/-- The definitions of a name in the scope at a place, in order. -/
def definitions (a : Arena) (name : String) (i : Nat) : List Definition :=
  ((a.lookup? name i).map (·.definitions)).getD []

theorem definitions_openScope (a : Arena) (kind : ScopeKind) (node : Node) (p : Nat) (name : String)
    (i : Nat) : (a.openScope kind node (some p)).definitions name i = a.definitions name i := by
  rw [definitions, lookup?_openScope, definitions]

/-- A declaration comes behind the definitions that its name has, and changes no other. -/
theorem definitions_declare {i : Nat} (hi : i < a.size) (name : String) (definition : Definition)
    (other : String) (j : Nat) :
    (a.declare i name definition).definitions other j =
      a.definitions other j ++ if other = name ∧ j = i then [definition] else [] := by
  by_cases hij : i = j
  · subst hij
    obtain ⟨s, hs⟩ := exists_get?_of_lt hi
    by_cases hname : other = name
    · subst hname
      rcases hget : s.bindings.get? other with _ | v
      · simp [definitions, lookup?, declare, get?_modify_self, hs, hget]
      · simp [definitions, lookup?, declare, get?_modify_self, hs, hget]
    · simp [definitions, lookup?, declare, get?_modify_self, hs, Bindings.get?_alter_ne _ _ _ hname,
        hname]
  · rw [definitions, declare, lookup?, get?_modify_ne _ _ hij, ← lookup?, ← definitions]
    simp [Ne.symm hij]

/-- Inside the file a name is bound where it has definitions. -/
theorem Bound.definitions_eq_nil_iff (hbound : a.Bound) {name : String} {i : Nat} (hi : i ≠ 0) :
    a.definitions name i = [] ↔ a.lookup? name i = none := by
  rw [definitions]
  rcases hv : a.lookup? name i with _ | v
  · simp
  · simpa using hbound.declared name i v hv hi

/-- A name with definitions is bound by a variable that has them. -/
theorem Bound.exists_lookup?_of_definitions (hbound : a.Bound) {name : String} {i : Nat}
    (h : a.definitions name i ≠ []) :
    ∃ v, a.lookup? name i = some v ∧ v.scope = i ∧ v.definitions = a.definitions name i := by
  rw [definitions] at h ⊢
  rcases hv : a.lookup? name i with _ | v
  · simp [hv] at h
  · exact ⟨v, rfl, (hbound.placed name i v hv).2, rfl⟩

/-- A name is free when neither the scopes inside the module nor the module bind it. -/
theorem free_iff_of_chain_eq {name : String} {i : Nat} {inner : List Nat}
    (hchain : a.chain (some i) = inner ++ [1, 0]) (hinner : ∀ j ∈ inner, 1 < j) :
    a.Free name i ↔ (∀ j ∈ inner, a.lookup? name j = none) ∧ a.lookup? name 1 = none := by
  rw [Free, hchain]
  constructor
  · intro hnone
    refine ⟨fun j hj => ?_, hnone 1 (by simp) Nat.one_ne_zero⟩
    have hpos := hinner j hj
    exact hnone j (List.mem_append_left _ hj) (by omega)
  · rintro ⟨hnone, hmodule⟩ j hj hne
    rcases List.mem_append.mp hj with hj | hj
    · exact hnone j hj
    · simp only [List.mem_cons, List.not_mem_nil, or_false] at hj
      rcases hj with rfl | rfl
      · exact hmodule
      · exact absurd rfl hne

/-! ## The same scopes, with definitions in front -/

/-- An opened scope enters its parent's children and stands at the end. -/
theorem skeleton_openScope (a : Arena) (kind : ScopeKind) (node : Node) (p : Nat) :
    (a.openScope kind node (some p)).skeleton =
      a.skeleton.modify p (fun shape => (shape.1, shape.2.1, shape.2.2.1 ++ [a.size], shape.2.2.2)) ++
        [(kind, some p, [], a.size)] :=
  map_openScope a kind node p fun _ => rfl

/-- The second arena has the scopes of the first one, and in front of their definitions some more. -/
structure Behind (front : String → Nat → List Definition) (a b : Arena) : Prop where
  /-- the scopes are the same -/
  skeleton : b.skeleton = a.skeleton
  /-- the definitions are those in front and the old ones -/
  definitions : ∀ name i, b.definitions name i = front name i ++ a.definitions name i

namespace Behind

variable {front : String → Nat → List Definition} (h : Behind front a b)

include h

theorem size_eq : b.size = a.size :=
  size_eq_of_skeleton h.skeleton

theorem openScope (kind : ScopeKind) (node : Node) (p : Nat) :
    Behind front (a.openScope kind node (some p)) (b.openScope kind node (some p)) := by
  constructor
  · rw [skeleton_openScope, skeleton_openScope, h.skeleton, h.size_eq]
  · intro name i
    rw [definitions_openScope, definitions_openScope, h.definitions]

theorem declare {i : Nat} (hi : i < a.size) (name : String) (definition : Definition) :
    Behind front (a.declare i name definition) (b.declare i name definition) := by
  constructor
  · rw [skeleton_declare, skeleton_declare, h.skeleton]
  · intro other j
    rw [definitions_declare hi, definitions_declare (h.size_eq ▸ hi), h.definitions, List.append_assoc]

/-- A scope with nothing in front binds what it bound before. -/
theorem lookup?_eq_none_iff (hbound : a.Bound) (hbound' : b.Bound) {name : String} {i : Nat} (hi : i ≠ 0)
    (hnone : front name i = []) : b.lookup? name i = none ↔ a.lookup? name i = none := by
  rw [← hbound'.definitions_eq_nil_iff hi, ← hbound.definitions_eq_nil_iff hi, h.definitions, hnone,
    List.nil_append]

/-- **Which uses denote what is declared in front.** Let a name be declared once in front of the file. Seen from
a scope it denotes this declaration and no other exactly when no scope up to the module's bound it before: an
inner scope that did captures the name, and a module that did declares it again. -/
theorem resolve_iff (hroot : a.Rooted) (hbound : a.Bound) (hbound' : b.Bound) {name : String}
    {own : Definition} (hown : front name 1 = [own]) (hinner : ∀ j, 1 < j → front name j = []) {i : Nat}
    (hi : a.Inside i) :
    (∃ v, b.resolve (some i) name = some v ∧ v.scope = 1 ∧ v.definitions = [own]) ↔ a.Free name i := by
  obtain ⟨inner, hchain, hinside⟩ := hroot.chain_eq_inner_append hi
  have hchain' : b.chain (some i) = inner ++ [1, 0] := (chain_of_skeleton h.skeleton _).trans hchain
  have hone : b.definitions name 1 = own :: a.definitions name 1 := by
    rw [h.definitions, hown, List.singleton_append]
  have hdefined : b.definitions name 1 ≠ [] := by
    rw [hone]
    exact List.cons_ne_nil _ _
  obtain ⟨top, htop, hscope, hdefinitions⟩ := hbound'.exists_lookup?_of_definitions hdefined
  -- below the module the two arenas bind the name in the same scopes
  have hsame : ∀ j ∈ inner, (b.lookup? name j = none ↔ a.lookup? name j = none) := by
    intro j hj
    obtain ⟨hpos, -⟩ := hinside j hj
    exact h.lookup?_eq_none_iff hbound hbound' (by omega) (hinner j hpos)
  rw [resolve, hchain', List.findSome?_append, free_iff_of_chain_eq hchain fun j hj => (hinside j hj).1]
  rcases hfind : inner.findSome? (b.lookup? name) with _ | v
  · have hnone : ∀ j ∈ inner, a.lookup? name j = none := by
      intro j hj
      exact (hsame j hj).mp (List.findSome?_eq_none_iff.mp hfind j hj)
    have hagain : top.definitions = [own] ↔ a.lookup? name 1 = none := by
      rw [hdefinitions, hone, ← hbound.definitions_eq_nil_iff Nat.one_ne_zero]
      simp
    rw [and_iff_right hnone, ← hagain]
    simp [htop, hscope]
  · -- an inner scope captures the name
    obtain ⟨j, hj, hv⟩ := List.exists_of_findSome?_eq_some hfind
    obtain ⟨hpos, -⟩ := hinside j hj
    have hplaced := (hbound'.placed name j v hv).2
    constructor
    · rintro ⟨found, hfound, hmodule, -⟩
      obtain rfl : v = found := by simpa using hfound
      omega
    · rintro ⟨hnone, -⟩
      rw [(hsame j hj).mpr (hnone j hj)] at hv
      cases hv

end Behind

end Arena

namespace Item

open Arena

/-! ## Playing items behind others -/

theorem playAll_append (a : Arena) (i : Nat) (items more : List Item) :
    playAll a i (items ++ more) =
      ((playAll (playAll a i items).1 i more).1,
        (playAll a i items).2 ++ (playAll (playAll a i items).1 i more).2) := by
  induction items generalizing a with
  | nil => rfl
  | cons item rest ih => simp only [List.cons_append, playAll, ih, List.append_assoc]

variable {front : String → Nat → List Definition}

theorem stable_behind : Stable (Behind front) := by
  constructor
  · intro a b h
    exact h.size_eq
  · intro a b kind node p h _ _
    exact h.openScope kind node p
  · intro a b i binder name node h hroot hi
    rw [enter, enter, varScope_of_skeleton h.skeleton]
    exact h.declare (inside_enter hroot hi binder).2 name _

/-- **Items are played alike behind other definitions**: the same scopes open, the same uses are met, and the
definitions in front stay in front. -/
theorem playAll_behind {a b : Arena} (h : Behind front a b) (hroot : a.Rooted) {i : Nat} (hi : a.Inside i)
    (items : List Item) :
    Behind front (playAll a i items).1 (playAll b i items).1 ∧
      (playAll b i items).2 = (playAll a i items).2 :=
  playAll_related stable_behind h hroot hi items

end Item

/-! ## Whole files -/

namespace ScopeTree

variable (front : List Item) (source : Bytes) (root : Node) (globals : List String)

/-- Reading a file with other items in front of it, at its top. -/
def walkBehind : Arena × List Reference :=
  Item.playAll (initialArena root globals) 1 (front ++ outline source root)

theorem walkBehind_bound : (walkBehind front source root globals).1.Bound :=
  (Item.playAll_formed (initialArena_rooted root globals) (initialArena_bound root globals)
    (initialArena_unused root globals) (initialArena_rooted root globals).inside_one _).1.2.1

/-- Before any of the file is read nothing is defined. -/
theorem definitions_initialArena (name : String) (i : Nat) :
    (initialArena root globals).definitions name i = [] := by
  rw [Arena.definitions]
  rcases hv : (initialArena root globals).lookup? name i with _ | v
  · rfl
  · obtain ⟨-, rfl⟩ := lookup?_initialArena_some hv
    rfl

/-- **A file is read alike behind items that open no scope.** -/
theorem walkBehind_eq {ahead : Arena} {uses : List Reference}
    (hfront : Item.playAll (initialArena root globals) 1 front = (ahead, uses))
    (hskeleton : ahead.skeleton = (initialArena root globals).skeleton) :
    Arena.Behind ahead.definitions (walk source root globals).1 (walkBehind front source root globals).1 ∧
      (walkBehind front source root globals).2 = uses ++ (walk source root globals).2 := by
  have hahead : Arena.Behind ahead.definitions (initialArena root globals) ahead := by
    refine ⟨hskeleton, fun name i => ?_⟩
    rw [definitions_initialArena, List.append_nil]
  have hroot := initialArena_rooted root globals
  obtain ⟨hbehind, huses⟩ := Item.playAll_behind hahead hroot hroot.inside_one (outline source root)
  rw [walkBehind, Item.playAll_append, hfront]
  exact ⟨hbehind, congrArg (uses ++ ·) huses⟩

end ScopeTree

end LoggerLint
