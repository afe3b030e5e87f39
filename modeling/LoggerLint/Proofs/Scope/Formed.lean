import LoggerLint.Proofs.Scope.Chain
import LoggerLint.Scope.Analysis

/-!
# Well-formed arenas

The scopes of a file form a tree that is known by its places: the outermost scope stands at `0`, the
module's at `1`, and every other scope after the one it stands in (`Rooted`). What the scopes bind is
in order too (`Bound`): a variable knows its name and its place, ambient globals are bound at `0`
only and have no definition, and every other variable has one.

Opening a scope inside the file and declaring a name there keep both, and these are the only things
that playing an outline does; `Item.playAll_keeps` is the induction over an outline, and
`ScopeTree.walk_rooted` and `ScopeTree.walk_bound` are what it gives for a whole file. The uses that
are met on the way stand inside the file, and are those of the outline, in order.
-/

namespace LoggerLint

namespace Arena

/-! ## The tree of scopes -/

/-- A place inside the file: a scope that is not the outermost one. -/
def Inside (a : Arena) (i : Nat) : Prop :=
  i ≠ 0 ∧ i < a.size

/-- The scopes stand in the tree that their places tell. -/
structure Rooted (a : Arena) : Prop where
  /-- a scope knows its place -/
  indexed : ∀ i s, a.get? i = some s → s.index = i
  /-- the outermost scope stands in no other -/
  outermost : ∃ s, a.get? 0 = some s ∧ s.parent = none
  /-- the module's scope stands in the outermost one -/
  module : ∃ s, a.get? 1 = some s ∧ s.kind = .module ∧ s.parent = some 0
  /-- every other scope stands in an earlier one inside the file -/
  nested : ∀ i s, a.get? i = some s → 2 ≤ i → ∃ p, s.parent = some p ∧ 1 ≤ p ∧ p < i
  /-- the children of a scope are those that stand in it, in order -/
  children : ∀ i s, a.get? i = some s →
    s.children = (List.range a.size).filter fun j => (a.get? j).bind (·.parent) == some i

/-- What a change of bindings leaves alone. -/
def skeleton (a : Arena) : List (ScopeKind × Option Nat × List Nat × Nat) :=
  a.scopes.map fun s => (s.kind, s.parent, s.children, s.index)

theorem skeleton_modify (a : Arena) (i : Nat) {change : Scope → Scope}
    (hchange : ∀ s, ((change s).kind, (change s).parent, (change s).children, (change s).index) =
      (s.kind, s.parent, s.children, s.index)) : (a.modify i change).skeleton = a.skeleton :=
  map_modify_of_unseen a.scopes i hchange

theorem size_eq_of_skeleton {a b : Arena} (h : a.skeleton = b.skeleton) : a.size = b.size := by
  simpa [skeleton, size] using congrArg List.length h

theorem get?_map_of_skeleton {a b : Arena} (h : a.skeleton = b.skeleton) (i : Nat) :
    (a.get? i).map (fun s => (s.kind, s.parent, s.children, s.index)) =
      (b.get? i).map fun s => (s.kind, s.parent, s.children, s.index) := by
  simpa [skeleton, get?] using congrArg (·[i]?) h

/-- A scope has a counterpart of the same shape in an arena with the same skeleton. -/
theorem exists_get?_of_skeleton {a b : Arena} (h : a.skeleton = b.skeleton) {i : Nat} {t : Scope}
    (ht : b.get? i = some t) :
    ∃ s, a.get? i = some s ∧ s.kind = t.kind ∧ s.parent = t.parent ∧ s.children = t.children ∧
      s.index = t.index := by
  have hi := get?_map_of_skeleton h i
  rw [ht] at hi
  obtain ⟨s, hs, hst⟩ := Option.map_eq_some_iff.mp hi
  simp only [Prod.mk.injEq] at hst
  exact ⟨s, hs, hst⟩

theorem parent_of_skeleton {a b : Arena} (h : a.skeleton = b.skeleton) (i : Nat) :
    (a.get? i).map (·.parent) = (b.get? i).map (·.parent) := by
  have hi := congrArg (Option.map fun shape => shape.2.1) (get?_map_of_skeleton h i)
  simpa [Option.map_map, Function.comp_def] using hi

theorem chain_of_skeleton {a b : Arena} (h : a.skeleton = b.skeleton) (start : Option Nat) :
    a.chain start = b.chain start :=
  chain_congr (size_eq_of_skeleton h) (parent_of_skeleton h) start

theorem holdsVarsAt_of_skeleton {a b : Arena} (h : a.skeleton = b.skeleton) :
    a.holdsVarsAt = b.holdsVarsAt := by
  funext i
  have hkind := congrArg (Option.map Prod.fst) (get?_map_of_skeleton h i)
  simp only [Option.map_map, Function.comp_def] at hkind
  have hany := congrArg (Option.any ScopeKind.holdsVars) hkind
  simpa [holdsVarsAt, Option.any_map, Function.comp_def] using hany

theorem varScope_of_skeleton {a b : Arena} (h : a.skeleton = b.skeleton) (i : Nat) :
    a.varScope i = b.varScope i := by
  rw [varScope, varScope, chain_of_skeleton h, holdsVarsAt_of_skeleton h]

theorem Rooted.of_skeleton {a b : Arena} (h : a.skeleton = b.skeleton) (hroot : a.Rooted) :
    b.Rooted := by
  have hsize := size_eq_of_skeleton h
  have hparent := parent_of_skeleton h
  obtain ⟨s, hs, hnone⟩ := hroot.outermost
  obtain ⟨m, hm, hkind, hzero⟩ := hroot.module
  obtain ⟨s', hs', -, hps, -⟩ := exists_get?_of_skeleton h.symm hs
  obtain ⟨m', hm', hkm, hpm, -⟩ := exists_get?_of_skeleton h.symm hm
  refine ⟨?_, ⟨s', hs', hps.trans hnone⟩, ⟨m', hm', hkm.trans hkind, hpm.trans hzero⟩, ?_, ?_⟩
  · intro i t ht
    obtain ⟨s, hs, -, -, -, hindex⟩ := exists_get?_of_skeleton h ht
    rw [← hindex]
    exact hroot.indexed i s hs
  · intro i t ht hi
    obtain ⟨s, hs, -, hp, -⟩ := exists_get?_of_skeleton h ht
    rw [← hp]
    exact hroot.nested i s hs hi
  · intro i t ht
    obtain ⟨s, hs, -, -, hc, -⟩ := exists_get?_of_skeleton h ht
    have hbind : ∀ j, (a.get? j).bind (·.parent) = (b.get? j).bind (·.parent) := by
      intro j
      have hj := congrArg (Option.bind · id) (hparent j)
      simpa [Option.bind_map] using hj
    rw [← hc, hroot.children i s hs, hsize]
    simp only [hbind]

namespace Rooted

variable {a : Arena}

theorem two_le_size (hroot : a.Rooted) : 2 ≤ a.size := by
  obtain ⟨m, hm, -⟩ := hroot.module
  exact lt_size_of_get? hm

theorem inside_one (hroot : a.Rooted) : a.Inside 1 :=
  ⟨Nat.one_ne_zero, hroot.two_le_size⟩

theorem descending (hroot : a.Rooted) : a.Descending := by
  intro i s p hs hp
  obtain ⟨g, hg, hgp⟩ := hroot.outermost
  obtain ⟨m, hm, -, hmp⟩ := hroot.module
  match i with
  | 0 =>
    obtain rfl := Option.some.inj (hg.symm.trans hs)
    rw [hgp] at hp
    cases hp
  | 1 =>
    obtain rfl := Option.some.inj (hm.symm.trans hs)
    obtain rfl := Option.some.inj (hmp.symm.trans hp)
    exact Nat.one_pos
  | i + 2 =>
    obtain ⟨q, hq, -, hlt⟩ := hroot.nested (i + 2) s hs (by omega)
    obtain rfl := Option.some.inj (hq.symm.trans hp)
    exact hlt

theorem chain_one (hroot : a.Rooted) : a.chain (some 1) = [1, 0] := by
  obtain ⟨g, hg, hgp⟩ := hroot.outermost
  obtain ⟨m, hm, -, hmp⟩ := hroot.module
  rw [chain_eq_cons hroot.descending hm, hmp, chain_eq_cons hroot.descending hg, hgp]
  simp [chain]

/-- Seen from the module, a name denotes what the module binds it to, or else the outermost scope. -/
theorem resolve_one (hroot : a.Rooted) (name : String) :
    a.resolve (some 1) name = (a.lookup? name 1).or (a.lookup? name 0) := by
  rw [resolve, hroot.chain_one]
  rcases h1 : a.lookup? name 1 with _ | v
  · rcases h0 : a.lookup? name 0 with _ | v <;> simp [h1, h0]
  · simp [h1]

/-- **Every chain from inside the file ends in the module's scope and the outermost one**, and passes
through scopes inside the module until then. -/
theorem chain_eq_inner_append (hroot : a.Rooted) {i : Nat} (hi : a.Inside i) :
    ∃ inner, a.chain (some i) = inner ++ [1, 0] ∧ ∀ j ∈ inner, 1 < j ∧ j < a.size := by
  induction i using Nat.strongRecOn with
  | ind i ih =>
    obtain ⟨hne, hlt⟩ := hi
    by_cases hone : i = 1
    · subst hone
      exact ⟨[], hroot.chain_one, by simp⟩
    · obtain ⟨s, hs⟩ := exists_get?_of_lt hlt
      obtain ⟨p, hp, hpos, hpi⟩ := hroot.nested i s hs (by omega)
      obtain ⟨inner, hinner, hinside⟩ := ih p hpi ⟨by omega, by omega⟩
      refine ⟨i :: inner, ?_, List.forall_mem_cons.mpr ⟨by omega, hinside⟩⟩
      rw [chain_eq_cons hroot.descending hs, hp, hinner, List.cons_append]

theorem chain_eq_append (hroot : a.Rooted) {i : Nat} (hi : a.Inside i) :
    ∃ inner, a.chain (some i) = inner ++ [1, 0] ∧ ∀ j ∈ inner, a.Inside j := by
  obtain ⟨inner, hinner, hinside⟩ := hroot.chain_eq_inner_append hi
  refine ⟨inner, hinner, fun j hj => ?_⟩
  obtain ⟨hpos, hlt⟩ := hinside j hj
  exact ⟨by omega, hlt⟩

theorem one_mem_chain (hroot : a.Rooted) {i : Nat} (hi : a.Inside i) : 1 ∈ a.chain (some i) := by
  obtain ⟨inner, hinner, -⟩ := hroot.chain_eq_append hi
  simp [hinner]

/-- A hoisted declaration never leaves the file: it binds in the module's scope at the latest. -/
theorem inside_varScope (hroot : a.Rooted) {i : Nat} (hi : a.Inside i) :
    a.Inside (a.varScope i) := by
  obtain ⟨inner, hinner, hinside⟩ := hroot.chain_eq_append hi
  obtain ⟨m, hm, hkind, -⟩ := hroot.module
  have hvars : a.holdsVarsAt 1 = true := by
    simp [holdsVarsAt, hm, hkind, ScopeKind.holdsVars]
  simp only [varScope, hinner, List.find?_append]
  rcases hfind : inner.find? a.holdsVarsAt with _ | j
  · simpa [hvars] using hroot.inside_one
  · simpa using hinside j (List.mem_of_find?_eq_some hfind)

/-- The module's scope is the first child of the outermost one, so it is the top of the file. -/
theorem top?_eq (hroot : a.Rooted) : ∃ g, a.get? 0 = some g ∧ a.top? = some ⟨g, some 1⟩ := by
  obtain ⟨g, hg, hgp⟩ := hroot.outermost
  obtain ⟨m, hm, -, hmp⟩ := hroot.module
  obtain ⟨n, hn⟩ : ∃ n, a.size = n + 2 := ⟨a.size - 2, by have := hroot.two_le_size; omega⟩
  have hhead : g.children.head? = some 1 := by
    rw [hroot.children 0 g hg, hn, List.range_eq_range', List.range'_succ, List.range'_succ]
    simp [hg, hgp, hm, hmp]
  refine ⟨g, hg, ?_⟩
  simp [top?, hg, hhead, hm]

end Rooted

section

variable {a : Arena} (kind : ScopeKind) (node : Node) {p : Nat}

/-- An old scope after opening one: only the parent has a new child. -/
theorem get?_openScope_of_get? {i : Nat} {s : Scope} (hs : a.get? i = some s) :
    (a.openScope kind node (some p)).get? i =
      some (if i = p then { s with children := s.children ++ [a.size] } else s) := by
  rw [get?_openScope_lt _ _ _ _ (lt_size_of_get? hs), hs, Option.map_some]

theorem parent_openScope {i : Nat} (hi : i < a.size) :
    ((a.openScope kind node (some p)).get? i).bind (·.parent) = (a.get? i).bind (·.parent) := by
  obtain ⟨s, hs⟩ := exists_get?_of_lt hi
  rw [get?_openScope_of_get? kind node hs, hs]
  by_cases h : i = p <;> simp [h]

/-- The scopes with a given parent after opening one: those from before, and the new one, which comes
last. -/
theorem filter_parent_openScope (i : Nat) :
    ((List.range (a.size + 1)).filter fun j =>
      ((a.openScope kind node (some p)).get? j).bind (·.parent) == some i) =
        ((List.range a.size).filter fun j => (a.get? j).bind (·.parent) == some i) ++
          (if i = p then [a.size] else []) := by
  rw [List.range_succ, List.filter_append]
  congr 1
  · apply List.filter_congr
    intro j hj
    rw [parent_openScope kind node (List.mem_range.mp hj)]
  · simp only [get?_openScope_size, Option.bind_some, List.filter_cons, List.filter_nil]
    by_cases h : i = p
    · simp [h]
    · have hne : (some p == some i) = false := by simpa using Ne.symm h
      simp [h, hne]

/-- Nothing stands in a scope that is not there yet. -/
theorem filter_parent_size (hdesc : a.Descending) :
    ((List.range a.size).filter fun j => (a.get? j).bind (·.parent) == some a.size) = [] := by
  refine List.filter_eq_nil_iff.mpr fun j hj hpar => ?_
  obtain ⟨s, hs⟩ := exists_get?_of_lt (List.mem_range.mp hj)
  rw [hs] at hpar
  have hlt := hdesc j s a.size hs (by simpa using hpar)
  have hlt' := List.mem_range.mp hj
  omega

/-- Opening a scope inside the file keeps the tree: the new scope stands last, in its parent. -/
theorem Rooted.openScope (hroot : a.Rooted) (hp : a.Inside p) :
    (a.openScope kind node (some p)).Rooted := by
  refine ⟨?_, ?_, ?_, ?_, ?_⟩
  · intro i t ht
    have hlt := lt_size_of_get? ht
    rw [size_openScope] at hlt
    by_cases hnew : i = a.size
    · subst hnew
      rw [get?_openScope_size] at ht
      obtain rfl := Option.some.inj ht
      rfl
    · obtain ⟨s, hs⟩ := exists_get?_of_lt (a := a) (i := i) (by omega)
      rw [get?_openScope_of_get? kind node hs] at ht
      obtain rfl := Option.some.inj ht
      split <;> exact hroot.indexed i s hs
  · obtain ⟨g, hg, hgp⟩ := hroot.outermost
    refine ⟨g, ?_, hgp⟩
    rw [get?_openScope_of_get? kind node hg, if_neg (Ne.symm hp.1)]
  · obtain ⟨m, hm, hkind, hzero⟩ := hroot.module
    refine ⟨_, get?_openScope_of_get? kind node hm, ?_, ?_⟩
    · by_cases h : 1 = p <;> simp [h, hkind]
    · by_cases h : 1 = p <;> simp [h, hzero]
  · intro i t ht hi
    have hlt := lt_size_of_get? ht
    rw [size_openScope] at hlt
    by_cases hnew : i = a.size
    · subst hnew
      rw [get?_openScope_size] at ht
      obtain rfl := Option.some.inj ht
      exact ⟨p, rfl, Nat.one_le_iff_ne_zero.mpr hp.1, hp.2⟩
    · obtain ⟨s, hs⟩ := exists_get?_of_lt (a := a) (i := i) (by omega)
      obtain ⟨q, hq, hpos, hqi⟩ := hroot.nested i s hs hi
      rw [get?_openScope_of_get? kind node hs] at ht
      obtain rfl := Option.some.inj ht
      refine ⟨q, ?_, hpos, hqi⟩
      by_cases h : i = p <;> simp [h, hq]
  · intro i t ht
    have hlt := lt_size_of_get? ht
    rw [size_openScope] at hlt
    rw [size_openScope, filter_parent_openScope]
    by_cases hnew : i = a.size
    · -- the new scope has no children
      subst hnew
      rw [get?_openScope_size] at ht
      obtain rfl := Option.some.inj ht
      have hne : a.size ≠ p := Nat.ne_of_gt hp.2
      simp [filter_parent_size hroot.descending, hne]
    · obtain ⟨s, hs⟩ := exists_get?_of_lt (a := a) (i := i) (by omega)
      rw [get?_openScope_of_get? kind node hs] at ht
      obtain rfl := Option.some.inj ht
      rw [← hroot.children i s hs]
      by_cases h : i = p <;> simp [h]

/-- The new scope stands inside the file. -/
theorem Inside.openScope_size (hp : a.Inside p) : (a.openScope kind node (some p)).Inside a.size :=
  ⟨Nat.ne_of_gt (Nat.lt_of_le_of_lt (Nat.zero_le p) hp.2), by simp⟩

end

theorem Inside.mono {a b : Arena} {i : Nat} (hi : a.Inside i) (hsize : a.size ≤ b.size) : b.Inside i :=
  ⟨hi.1, Nat.lt_of_lt_of_le hi.2 hsize⟩

/-! ## What the scopes bind -/

/-- The variables are where they say they are; ambient globals, and only they, have no definition. -/
structure Bound (a : Arena) : Prop where
  /-- a variable knows its name and its scope -/
  placed : ∀ name i v, a.lookup? name i = some v → v.name = name ∧ v.scope = i
  /-- the outermost scope binds ambient globals only -/
  ambient : ∀ name v, a.lookup? name 0 = some v → v.definitions = []
  /-- inside the file everything that is bound is declared -/
  declared : ∀ name i v, a.lookup? name i = some v → i ≠ 0 → v.definitions ≠ []

/-- No use has been entered yet. -/
structure Unused (a : Arena) : Prop where
  /-- no variable has uses -/
  references : ∀ name i v, a.lookup? name i = some v → v.references = []
  /-- no use is left over -/
  through : ∀ i s, a.get? i = some s → s.through = []

theorem skeleton_declare (a : Arena) (i : Nat) (name : String) (definition : Definition) :
    (a.declare i name definition).skeleton = a.skeleton :=
  skeleton_modify a i fun _ => rfl

@[simp] theorem size_declare (a : Arena) (i : Nat) (name : String) (definition : Definition) :
    (a.declare i name definition).size = a.size :=
  size_modify a i _

/-- A variable after a declaration: the declared one with its new definition, or an old one. -/
theorem lookup?_declare_cases {a : Arena} {i j : Nat} {name other : String} {definition : Definition}
    {v : Variable} (h : (a.declare i name definition).lookup? other j = some v) :
    a.lookup? other j = some v ∨
      other = name ∧ j = i ∧ ∃ old, (a.lookup? other j = some old ∨ old = { name, scope := i }) ∧
        v = { old with definitions := old.definitions ++ [definition] } := by
  by_cases hij : i = j
  · subst hij
    rw [declare, lookup?, get?_modify_self] at h
    rcases hs : a.get? i with _ | s
    · simp [hs] at h
    · rw [hs] at h
      simp only [Option.map_some, Option.bind_some] at h
      have hlookup : ∀ n, a.lookup? n i = s.bindings.get? n := by
        intro n
        simp [lookup?, hs]
      by_cases hname : other = name
      · subst hname
        rw [Bindings.get?_alter_self] at h
        refine .inr ⟨rfl, rfl, _, ?_, (Option.some.inj h).symm⟩
        rw [hlookup]
        rcases s.bindings.get? other with _ | old
        · exact .inr rfl
        · exact .inl rfl
      · rw [Bindings.get?_alter_ne _ _ _ hname] at h
        exact .inl ((hlookup other).trans h)
  · rw [declare, lookup?, get?_modify_ne _ _ hij] at h
    exact .inl h

theorem Bound.declare {a : Arena} (hbound : a.Bound) {i : Nat} (hi : i ≠ 0) (name : String)
    (definition : Definition) : (a.declare i name definition).Bound := by
  refine ⟨?_, ?_, ?_⟩
  · intro other j v hv
    rcases lookup?_declare_cases hv with hv | ⟨rfl, rfl, old, hold | rfl, rfl⟩
    · exact hbound.placed other j v hv
    · exact hbound.placed other j old hold
    · exact ⟨rfl, rfl⟩
  · intro other v hv
    rcases lookup?_declare_cases hv with hv | ⟨-, hzero, -⟩
    · exact hbound.ambient other v hv
    · exact absurd hzero.symm hi
  · intro other j v hv hj
    rcases lookup?_declare_cases hv with hv | ⟨-, -, old, -, rfl⟩
    · exact hbound.declared other j v hv hj
    · simp

theorem Unused.declare {a : Arena} (hunused : a.Unused) (i : Nat) (name : String)
    (definition : Definition) : (a.declare i name definition).Unused := by
  refine ⟨?_, ?_⟩
  · intro other j v hv
    rcases lookup?_declare_cases hv with hv | ⟨rfl, rfl, old, hold | rfl, rfl⟩
    · exact hunused.references other j v hv
    · exact hunused.references other j old hold
    · rfl
  · intro j t ht
    by_cases hij : i = j
    · subst hij
      rw [Arena.declare, get?_modify_self] at ht
      obtain ⟨s, hs, rfl⟩ := Option.map_eq_some_iff.mp ht
      exact hunused.through i s hs
    · rw [Arena.declare, get?_modify_ne _ _ hij] at ht
      exact hunused.through j t ht

theorem Bound.openScope {a : Arena} (hbound : a.Bound) (kind : ScopeKind) (node : Node) (p : Nat) :
    (a.openScope kind node (some p)).Bound := by
  refine ⟨?_, ?_, ?_⟩ <;> intro name
  · intro i v hv
    exact hbound.placed name i v (lookup?_openScope a kind node p name i ▸ hv)
  · intro v hv
    exact hbound.ambient name v (lookup?_openScope a kind node p name 0 ▸ hv)
  · intro i v hv
    exact hbound.declared name i v (lookup?_openScope a kind node p name i ▸ hv)

theorem Unused.openScope {a : Arena} (hunused : a.Unused) (kind : ScopeKind) (node : Node) (p : Nat) :
    (a.openScope kind node (some p)).Unused := by
  refine ⟨?_, ?_⟩
  · intro name i v hv
    exact hunused.references name i v (lookup?_openScope a kind node p name i ▸ hv)
  · intro i t ht
    have hlt := lt_size_of_get? ht
    rw [size_openScope] at hlt
    by_cases hnew : i = a.size
    · subst hnew
      rw [get?_openScope_size] at ht
      obtain rfl := Option.some.inj ht
      rfl
    · rw [get?_openScope_lt _ _ _ _ (by omega)] at ht
      obtain ⟨s, hs, rfl⟩ := Option.map_eq_some_iff.mp ht
      by_cases h : i = p <;> simpa [h] using hunused.through _ s hs

end Arena

/-! ## Playing an outline -/

namespace Item

open Arena

mutual

/-- The declarations of an item, in order. -/
def declarations : Item → List (Binder × String × Node)
  | .use _ _ => []
  | .declare binder name nameNode => [(binder, name, nameNode)]
  | .scope _ _ items => declarationsAll items
termination_by structural item => item

/-- The declarations of items, in order. -/
def declarationsAll : List Item → List (Binder × String × Node)
  | [] => []
  | item :: rest => declarations item ++ declarationsAll rest
termination_by structural items => items

end

theorem declarationsAll_append (items more : List Item) :
    declarationsAll (items ++ more) = declarationsAll items ++ declarationsAll more := by
  induction items with
  | nil => rfl
  | cons item rest ih => simp [declarationsAll, ih]

mutual

/-- What opening a scope and the declarations of an item keep, the item keeps, and it takes no scope
away. -/
theorem play_keeps {P : Arena → Prop} (a : Arena) (i : Nat) (hinv : P a) (hi : a.Inside i)
    (hopen : ∀ a kind node p, P a → a.Inside p → P (a.openScope kind node (some p))) :
    (item : Item) → (∀ a i binder name node, (binder, name, node) ∈ declarations item → P a →
      a.Inside i → P (enter a i binder name node)) →
      P (play a i item).1 ∧ a.size ≤ (play a i item).1.size
  | .use _ _, _ => ⟨hinv, Nat.le_refl _⟩
  | .declare binder name node, henter => by
    refine ⟨henter a i binder name node (List.mem_singleton_self _) hinv hi, ?_⟩
    simp [play, enter]
  | .scope kind node items, henter => by
    obtain ⟨hinner, hsize⟩ := playAll_keeps _ a.size (hopen a kind node i hinv hi)
      (hi.openScope_size kind node) hopen items henter
    rw [size_openScope] at hsize
    exact ⟨hinner, Nat.le_of_succ_le hsize⟩

/-- **The induction over an outline**: what opening a scope and the declarations of items keep, the items
keep. -/
theorem playAll_keeps {P : Arena → Prop} (a : Arena) (i : Nat) (hinv : P a) (hi : a.Inside i)
    (hopen : ∀ a kind node p, P a → a.Inside p → P (a.openScope kind node (some p))) :
    (items : List Item) → (∀ a i binder name node, (binder, name, node) ∈ declarationsAll items →
      P a → a.Inside i → P (enter a i binder name node)) →
      P (playAll a i items).1 ∧ a.size ≤ (playAll a i items).1.size
  | [], _ => ⟨hinv, Nat.le_refl _⟩
  | item :: rest, henter => by
    obtain ⟨hfirst, hsize⟩ := play_keeps a i hinv hi hopen item fun a i binder name node hmem =>
      henter a i binder name node (List.mem_append_left _ hmem)
    obtain ⟨hrest, hsize'⟩ := playAll_keeps _ i hfirst (hi.mono hsize) hopen rest
      fun a i binder name node hmem => henter a i binder name node (List.mem_append_right _ hmem)
    exact ⟨hrest, Nat.le_trans hsize hsize'⟩

end

/-- What opening and declaring inside the file keep, an item keeps. -/
theorem play_preserves {P : Arena → Prop}
    (hopen : ∀ a kind node p, P a → a.Inside p → P (a.openScope kind node (some p)))
    (henter : ∀ a i binder name node, P a → a.Inside i → P (enter a i binder name node))
    (a : Arena) (i : Nat) (hinv : P a) (hi : a.Inside i) (item : Item) :
    P (play a i item).1 ∧ a.size ≤ (play a i item).1.size :=
  play_keeps a i hinv hi hopen item fun a i binder name node _ => henter a i binder name node

/-- What opening and declaring inside the file keep, items keep. -/
theorem playAll_preserves {P : Arena → Prop}
    (hopen : ∀ a kind node p, P a → a.Inside p → P (a.openScope kind node (some p)))
    (henter : ∀ a i binder name node, P a → a.Inside i → P (enter a i binder name node))
    (a : Arena) (i : Nat) (hinv : P a) (hi : a.Inside i) (items : List Item) :
    P (playAll a i items).1 ∧ a.size ≤ (playAll a i items).1.size :=
  playAll_keeps a i hinv hi hopen items fun a i binder name node _ => henter a i binder name node

theorem skeleton_enter (a : Arena) (i : Nat) (binder : Binder) (name : String) (node : Node) :
    (enter a i binder name node).skeleton = a.skeleton :=
  skeleton_declare _ _ _ _

/-- A declaration inside the file binds inside the file, hoisted or not. -/
theorem inside_enter {a : Arena} (hroot : a.Rooted) {i : Nat} (hi : a.Inside i) (binder : Binder) :
    a.Inside (if binder.hoisted then a.varScope i else i) := by
  by_cases h : binder.hoisted
  · simpa [h] using hroot.inside_varScope hi
  · simpa [h] using hi

/-- What an outline finds in good order it leaves so. -/
theorem playAll_formed {a : Arena} {i : Nat} (hroot : a.Rooted) (hbound : a.Bound) (hunused : a.Unused)
    (hi : a.Inside i) (items : List Item) :
    ((playAll a i items).1.Rooted ∧ (playAll a i items).1.Bound ∧ (playAll a i items).1.Unused) ∧
      a.size ≤ (playAll a i items).1.size := by
  refine playAll_preserves (P := fun a => a.Rooted ∧ a.Bound ∧ a.Unused) ?_ ?_ a i
    ⟨hroot, hbound, hunused⟩ hi items
  · rintro a kind node p ⟨hroot, hbound, hunused⟩ hp
    exact ⟨hroot.openScope kind node hp, hbound.openScope kind node p,
      hunused.openScope kind node p⟩
  · rintro a i binder name node ⟨hroot, hbound, hunused⟩ hi
    exact ⟨hroot.of_skeleton (skeleton_enter a i binder name node).symm,
      hbound.declare (inside_enter hroot hi binder).1 _ _, hunused.declare _ _ _⟩

/-! ## The uses of an outline -/

mutual

/-- The names that an item uses and where they stand, in order. -/
def sites : Item → List (String × Site)
  | .use name site => [(name, site)]
  | .declare _ _ _ => []
  | .scope _ _ items => sitesAll items
termination_by structural item => item

/-- The names that items use and where they stand, in order. -/
def sitesAll : List Item → List (String × Site)
  | [] => []
  | item :: rest => sites item ++ sitesAll rest
termination_by structural items => items

end

theorem sitesAll_append (items more : List Item) :
    sitesAll (items ++ more) = sitesAll items ++ sitesAll more := by
  induction items with
  | nil => rfl
  | cons item rest ih => simp [sitesAll, ih]

mutual

/-- The uses that playing an item makes are the item's own, in order, whatever the arena is. -/
theorem sites_play (a : Arena) (i : Nat) :
    (item : Item) → (play a i item).2.map (fun use => (use.name, use.site)) = sites item
  | .use _ _ => rfl
  | .declare _ _ _ => rfl
  | .scope kind node items => sitesAll_play (a.openScope kind node (some i)) a.size items

/-- The uses that playing items makes are their own, in order, whatever the arena is. -/
theorem sitesAll_play (a : Arena) (i : Nat) :
    (items : List Item) →
      (playAll a i items).2.map (fun use => (use.name, use.site)) = sitesAll items
  | [] => rfl
  | item :: rest => by
    have hfirst := sites_play a i item
    have hrest := sitesAll_play (play a i item).1 i rest
    simp only [playAll, List.map_append, hfirst, hrest, sitesAll]

end

theorem size_le_play {a : Arena} {i : Nat} (hi : a.Inside i) (item : Item) :
    a.size ≤ (play a i item).1.size :=
  (play_preserves (P := fun _ => True) (fun _ _ _ _ _ _ => trivial) (fun _ _ _ _ _ _ _ => trivial)
    a i trivial hi item).2

theorem size_le_playAll {a : Arena} {i : Nat} (hi : a.Inside i) (items : List Item) :
    a.size ≤ (playAll a i items).1.size :=
  (playAll_preserves (P := fun _ => True) (fun _ _ _ _ _ _ => trivial)
    (fun _ _ _ _ _ _ _ => trivial) a i trivial hi items).2

theorem play_rooted {a : Arena} {i : Nat} (hroot : a.Rooted) (hi : a.Inside i) (item : Item) :
    (play a i item).1.Rooted :=
  (play_preserves (P := Rooted) (fun _ kind node _ h hp => h.openScope kind node hp)
    (fun a i binder name node h _ => h.of_skeleton (skeleton_enter a i binder name node).symm)
    a i hroot hi item).1

/-- Arenas that are related stay so while scopes open and names are declared. -/
structure Stable (R : Arena → Arena → Prop) : Prop where
  /-- related arenas have the same places -/
  size_eq : ∀ a b, R a b → b.size = a.size
  /-- a scope may open in both -/
  openScope : ∀ a b kind node p, R a b → a.Rooted → a.Inside p →
    R (a.openScope kind node (some p)) (b.openScope kind node (some p))
  /-- a name may be declared in both -/
  enter : ∀ a b i binder name node, R a b → a.Rooted → a.Inside i →
    R (enter a i binder name node) (enter b i binder name node)

mutual

theorem play_related {R : Arena → Arena → Prop} (hR : Stable R) {a b : Arena} (h : R a b)
    (hroot : a.Rooted) {i : Nat} (hi : a.Inside i) :
    (item : Item) → R (play a i item).1 (play b i item).1 ∧ (play b i item).2 = (play a i item).2
  | .use _ _ => ⟨h, rfl⟩
  | .declare binder name node => ⟨hR.enter a b i binder name node h hroot hi, rfl⟩
  | .scope kind node items => by
    have hinner := playAll_related hR (hR.openScope a b kind node i h hroot hi)
      (hroot.openScope kind node hi) (hi.openScope_size kind node) items
    simp only [play, hR.size_eq a b h]
    exact hinner

/-- **The induction over two runs**: related arenas stay related while an outline is played in both, and the
same uses are met. -/
theorem playAll_related {R : Arena → Arena → Prop} (hR : Stable R) {a b : Arena} (h : R a b)
    (hroot : a.Rooted) {i : Nat} (hi : a.Inside i) :
    (items : List Item) →
      R (playAll a i items).1 (playAll b i items).1 ∧ (playAll b i items).2 = (playAll a i items).2
  | [] => ⟨h, rfl⟩
  | item :: rest => by
    obtain ⟨hfirst, huses⟩ := play_related hR h hroot hi item
    obtain ⟨hrest, huses'⟩ := playAll_related hR hfirst (play_rooted hroot hi item)
      (hi.mono (size_le_play hi item)) rest
    refine ⟨hrest, ?_⟩
    simp only [playAll, huses, huses']

end

mutual

theorem inside_of_mem_play (a : Arena) (i : Nat) (hi : a.Inside i) :
    (item : Item) → ∀ use ∈ (play a i item).2,
      (play a i item).1.Inside use.scope ∧ use.target = none
  | .use name site => by
    intro use huse
    obtain rfl : use = { name, site, scope := i } := by simpa [play] using huse
    exact ⟨hi, rfl⟩
  | .declare _ _ _ => by
    intro use huse
    simp [play] at huse
  | .scope kind node items => by
    exact inside_of_mem_playAll (a.openScope kind node (some i)) a.size (hi.openScope_size kind node)
      items

/-- Every use stands inside the file, and is not settled yet. -/
theorem inside_of_mem_playAll (a : Arena) (i : Nat) (hi : a.Inside i) :
    (items : List Item) → ∀ use ∈ (playAll a i items).2,
      (playAll a i items).1.Inside use.scope ∧ use.target = none
  | [] => by
    intro use huse
    simp [playAll] at huse
  | item :: rest => by
    intro use huse
    have hi' := hi.mono (size_le_play hi item)
    rcases List.mem_append.mp huse with hfirst | hrest
    · obtain ⟨hin, htarget⟩ := inside_of_mem_play a i hi item use hfirst
      exact ⟨hin.mono (size_le_playAll hi' rest), htarget⟩
    · exact inside_of_mem_playAll _ i hi' rest use hrest

end

end Item

/-! ## Whole files -/

namespace ScopeTree

/-- What the outermost scope binds before any of the file is read. -/
def ambientBindings (globals : List String) : Bindings :=
  globals.foldl (fun bindings name => bindings.alter name { name, scope := 0 } id) []

theorem get?_ambientBindings (globals : List String) (name : String) :
    (ambientBindings globals).get? name =
      if name ∈ globals then some { name, scope := 0 } else none := by
  -- the fold starts from bindings that hold ambient globals only
  suffices h : ∀ bindings : Bindings,
      (bindings.get? name = none ∨ bindings.get? name = some { name, scope := 0 }) →
      (globals.foldl (fun bindings name => bindings.alter name { name, scope := 0 } id)
        bindings).get? name =
          if name ∈ globals then some { name, scope := 0 } else bindings.get? name from
    h [] (.inl rfl)
  induction globals with
  | nil => simp
  | cons first rest ih =>
    intro bindings hbindings
    by_cases hfirst : name = first
    · subst hfirst
      have hself : (bindings.alter name { name, scope := 0 } id).get? name =
          some { name, scope := 0 } := by
        rw [Bindings.get?_alter_self]
        rcases hbindings with h | h <;> simp [h]
      rw [List.foldl_cons, ih _ (.inr hself), hself]
      simp
    · have hne : (bindings.alter first { name := first, scope := 0 } id).get? name =
          bindings.get? name := Bindings.get?_alter_ne _ _ _ hfirst
      rw [List.foldl_cons, ih _ (by rw [hne]; exact hbindings), hne]
      simp [hfirst]

/-- The arena before any of the file is read, written out. -/
theorem initialArena_eq (root : Node) (globals : List String) :
    initialArena root globals =
      ⟨[{ index := 0, kind := .global, node := root, parent := none, children := [1],
          bindings := ambientBindings globals },
        { index := 1, kind := .module, node := root, parent := some 0 }]⟩ := by
  suffices h : ∀ bindings : Bindings,
      globals.foldl (fun arena name => arena.declareAmbient 0 name)
        (⟨[{ kind := .global, node := root, parent := none, bindings }]⟩ : Arena) =
      ⟨[{ kind := .global, node := root, parent := none,
          bindings := globals.foldl
            (fun bindings name => bindings.alter name { name, scope := 0 } id) bindings }]⟩ by
    have hempty : ({} : Arena).openScope .global root none =
        ⟨[{ kind := .global, node := root, parent := none, bindings := [] }]⟩ := rfl
    rw [initialArena, hempty, h []]
    rfl
  induction globals with
  | nil => intro bindings; rfl
  | cons first rest ih => intro bindings; exact ih _

theorem initialArena_rooted (root : Node) (globals : List String) :
    (initialArena root globals).Rooted := by
  rw [initialArena_eq]
  refine ⟨?_, ⟨_, rfl, rfl⟩, ⟨_, rfl, rfl, rfl⟩, ?_, ?_⟩
  · intro i s hs
    match i with
    | 0 => obtain rfl := Option.some.inj hs; rfl
    | 1 => obtain rfl := Option.some.inj hs; rfl
    | i + 2 => cases hs
  · intro i s hs hi
    have := Arena.lt_size_of_get? hs
    simp only [Arena.size, List.length_cons, List.length_nil] at this
    omega
  · intro i s hs
    match i with
    | 0 =>
      obtain rfl := Option.some.inj hs
      rfl
    | 1 =>
      obtain rfl := Option.some.inj hs
      rfl
    | i + 2 => cases hs

theorem lookup?_initialArena_zero (root : Node) (globals : List String) (name : String) :
    (initialArena root globals).lookup? name 0 =
      if name ∈ globals then some { name, scope := 0 } else none := by
  rw [initialArena_eq, ← get?_ambientBindings]
  rfl

theorem lookup?_initialArena_ne (root : Node) (globals : List String) (name : String) {i : Nat}
    (hi : i ≠ 0) : (initialArena root globals).lookup? name i = none := by
  rw [initialArena_eq]
  match i, hi with
  | 1, _ => rfl
  | i + 2, _ => rfl

theorem lookup?_initialArena_some {root : Node} {globals : List String} {name : String} {i : Nat}
    {v : Variable} (h : (initialArena root globals).lookup? name i = some v) :
    i = 0 ∧ v = { name, scope := 0 } := by
  by_cases hi : i = 0
  · subst hi
    rw [lookup?_initialArena_zero] at h
    by_cases hname : name ∈ globals
    · rw [if_pos hname] at h
      exact ⟨rfl, (Option.some.inj h).symm⟩
    · rw [if_neg hname] at h
      cases h
  · rw [lookup?_initialArena_ne root globals name hi] at h
    cases h

theorem initialArena_bound (root : Node) (globals : List String) :
    (initialArena root globals).Bound := by
  refine ⟨?_, ?_, ?_⟩
  · intro name i v hv
    obtain ⟨rfl, rfl⟩ := lookup?_initialArena_some hv
    exact ⟨rfl, rfl⟩
  · intro name v hv
    obtain ⟨-, rfl⟩ := lookup?_initialArena_some hv
    rfl
  · intro name i v hv hi
    exact absurd (lookup?_initialArena_some hv).1 hi

theorem initialArena_unused (root : Node) (globals : List String) :
    (initialArena root globals).Unused := by
  refine ⟨?_, ?_⟩
  · intro name i v hv
    obtain ⟨-, rfl⟩ := lookup?_initialArena_some hv
    rfl
  · rw [initialArena_eq]
    intro i s hs
    match i with
    | 0 => obtain rfl := Option.some.inj hs; rfl
    | 1 => obtain rfl := Option.some.inj hs; rfl
    | i + 2 => cases hs

variable (source : Bytes) (root : Node) (globals : List String)

theorem walk_formed :
    (walk source root globals).1.Rooted ∧ (walk source root globals).1.Bound ∧
      (walk source root globals).1.Unused :=
  (Item.playAll_formed (initialArena_rooted root globals) (initialArena_bound root globals)
    (initialArena_unused root globals) (initialArena_rooted root globals).inside_one _).1

/-- **The scopes of a file form a tree**, whatever the syntax tree. -/
theorem walk_rooted : (walk source root globals).1.Rooted :=
  (walk_formed source root globals).1

/-- **What the scopes of a file bind is in order**, whatever the syntax tree. -/
theorem walk_bound : (walk source root globals).1.Bound :=
  (walk_formed source root globals).2.1

theorem walk_unused : (walk source root globals).1.Unused :=
  (walk_formed source root globals).2.2

theorem inside_of_mem_walk {use : Reference} (huse : use ∈ (walk source root globals).2) :
    (walk source root globals).1.Inside use.scope ∧ use.target = none :=
  Item.inside_of_mem_playAll _ 1 (initialArena_rooted root globals).inside_one _ use huse

theorem sites_walk :
    (walk source root globals).2.map (fun use => (use.name, use.site)) =
      Item.sitesAll (outline source root) :=
  Item.sitesAll_play _ _ _

end ScopeTree

end LoggerLint
