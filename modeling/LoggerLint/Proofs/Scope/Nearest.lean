import LoggerLint.Proofs.Scope.Chain

/-!
# The nearest binding

`Arena.resolve` looks for a name on the chain of a scope, and the chain is computed with a bound on its length. Here
the search is told without one: `Search` goes from a scope to its parent until a scope binds the name, or until there
is no parent left. `above` counts the steps that it takes.

* A search has at most one course (`Search.unique`), and in an arena whose parents come before their children it has
  one, which ends with what `resolve` gives (`exists_search`).
* It visits the scopes on the way up that have no binding of the name below them (`Search.mem_visited_iff`), and it
  finds what the first scope on the way up that binds the name binds it to (`Search.found_eq_some_iff`,
  `Search.found_eq_none_iff`).
* Where the visited scopes bind the name as they did, the search runs as it did (`Search.of_agree`).

`resolve_nearest` puts these together.
-/

namespace LoggerLint.Arena

/-- The scope so many steps up from the start: the start itself, its parent, the parent of that, and so on. -/
def above (a : Arena) (start : Option Nat) : (steps : Nat) → Option Nat
  | 0 => start
  | steps + 1 => (a.above start steps).bind fun i => (a.get? i).bind (·.parent)

/-- What the scope so many steps up binds the name to. -/
def boundAbove (a : Arena) (name : String) (start : Option Nat) (steps : Nat) : Option Variable :=
  (a.above start steps).bind (a.lookup? name)

/-- **The search for a name**, scope by scope: where it starts, the scopes that it visits, and what it finds. -/
inductive Search (a : Arena) (name : String) : Option Nat → List Nat → Option Variable → Prop where
  /-- where there is no scope nothing is found -/
  | outside : Search a name none [] none
  /-- at a scope that binds the name the search ends -/
  | here {i : Nat} {v : Variable} (hv : a.lookup? name i = some v) : Search a name (some i) [i] (some v)
  /-- from a scope that does not bind it the search goes on with the parent -/
  | up {i : Nat} {s : Scope} {visited : List Nat} {found : Option Variable} (hs : a.get? i = some s)
      (hnone : a.lookup? name i = none) (hrest : Search a name s.parent visited found) :
      Search a name (some i) (i :: visited) found

variable {a b : Arena} {name : String} {start : Option Nat} {i : Nat} {s : Scope}

/-! ## The way up -/

@[simp] theorem above_none (a : Arena) (steps : Nat) : a.above none steps = none := by
  induction steps with
  | zero => rfl
  | succ steps ih => rw [above, ih, Option.bind_none]

/-- One step more from a scope is so many steps from its parent. -/
theorem above_succ (hs : a.get? i = some s) (steps : Nat) :
    a.above (some i) (steps + 1) = a.above s.parent steps := by
  induction steps with
  | zero =>
    show (a.get? i).bind (·.parent) = s.parent
    rw [hs, Option.bind_some]
  | succ steps ih => rw [above, ih, above]

@[simp] theorem boundAbove_none (a : Arena) (name : String) (steps : Nat) : a.boundAbove name none steps = none := by
  rw [boundAbove, above_none, Option.bind_none]

theorem boundAbove_zero (a : Arena) (name : String) (i : Nat) : a.boundAbove name (some i) 0 = a.lookup? name i :=
  rfl

theorem boundAbove_succ (hs : a.get? i = some s) (name : String) (steps : Nat) :
    a.boundAbove name (some i) (steps + 1) = a.boundAbove name s.parent steps := by
  rw [boundAbove, above_succ hs, boundAbove]

/-- No scope above one that binds the name is reached without a binding on the way, … -/
theorem exists_reached_iff_of_bound {v : Variable} (hv : a.lookup? name i = some v) {P : Nat → Prop} :
    (∃ k, P k ∧ ∀ m < k, a.boundAbove name (some i) m = none) ↔ P 0 := by
  constructor
  · rintro ⟨k, hk, hreached⟩
    rcases k with _ | k
    · exact hk
    · cases hv.symm.trans (hreached 0 k.succ_pos)
  · exact fun hzero => ⟨0, hzero, fun m hm => absurd hm m.not_lt_zero⟩

/-- … and above one that does not, those that are reached from the parent. -/
theorem exists_reached_iff_of_unbound (hs : a.get? i = some s) (hnone : a.lookup? name i = none) {P : Nat → Prop} :
    (∃ k, P k ∧ ∀ m < k, a.boundAbove name (some i) m = none) ↔
      P 0 ∨ ∃ k, P (k + 1) ∧ ∀ m < k, a.boundAbove name s.parent m = none := by
  rw [← Nat.or_exists_add_one]
  simp only [Nat.forall_lt_succ_left, boundAbove_succ hs, boundAbove_zero, hnone, true_and, Nat.not_lt_zero,
    false_implies, implies_true, and_true]

/-! ## The course of a search -/

namespace Search

variable {visited : List Nat} {found : Option Variable}

/-- **A search has at most one course.** -/
theorem unique (h : a.Search name start visited found) {visited' : List Nat} {found' : Option Variable}
    (h' : a.Search name start visited' found') : visited' = visited ∧ found' = found := by
  induction h generalizing visited' found' with
  | outside =>
    cases h'
    exact ⟨rfl, rfl⟩
  | here hv =>
    cases h' with
    | here hv' => exact ⟨rfl, hv'.symm.trans hv⟩
    | up _ hnone _ => cases hv.symm.trans hnone
  | up hs hnone _ ih =>
    cases h' with
    | here hv => cases hv.symm.trans hnone
    | up hs' _ hrest' =>
      obtain rfl := Option.some.inj (hs.symm.trans hs')
      obtain ⟨rfl, rfl⟩ := ih hrest'
      exact ⟨rfl, rfl⟩

/-- **Visited are the scopes on the way up** with no binding of the name on the way to them. -/
theorem mem_visited_iff (h : a.Search name start visited found) {j : Nat} :
    j ∈ visited ↔ ∃ k, a.above start k = some j ∧ ∀ m < k, a.boundAbove name start m = none := by
  induction h with
  | outside => simp
  | here hv =>
    rw [exists_reached_iff_of_bound hv, List.mem_singleton, above, Option.some.injEq, eq_comm]
  | up hs hnone _ ih =>
    rw [exists_reached_iff_of_unbound hs hnone, List.mem_cons, ih, above, Option.some.injEq, eq_comm]
    simp only [above_succ hs]

/-- **Found is what the first scope on the way up that binds the name binds it to**, … -/
theorem found_eq_some_iff (h : a.Search name start visited found) {v : Variable} :
    found = some v ↔
      ∃ k, a.boundAbove name start k = some v ∧ ∀ m < k, a.boundAbove name start m = none := by
  induction h with
  | outside => simp
  | here hw => rw [exists_reached_iff_of_bound hw, boundAbove_zero, hw]
  | up hs hnone _ ih =>
    rw [exists_reached_iff_of_unbound hs hnone, ih, boundAbove_zero, hnone]
    simp only [boundAbove_succ hs, reduceCtorEq, false_or]

/-- … and nothing if no scope on the way up binds it. -/
theorem found_eq_none_iff (h : a.Search name start visited found) :
    found = none ↔ ∀ k, a.boundAbove name start k = none := by
  induction h with
  | outside => simp
  | here hv =>
    refine iff_of_false (Option.some_ne_none _) fun hnone => ?_
    cases hv.symm.trans (hnone 0)
  | up hs hnone _ ih =>
    rw [ih]
    constructor
    · rintro h (_ | k)
      · exact hnone
      · exact (boundAbove_succ hs name k).trans (h k)
    · exact fun h k => (boundAbove_succ hs name k).symm.trans (h (k + 1))

/-- **Only what the visited scopes bind the name to matters.** -/
theorem of_agree (hparent : ∀ j, (b.get? j).map (·.parent) = (a.get? j).map (·.parent))
    (h : a.Search name start visited found) (hagree : ∀ j ∈ visited, b.lookup? name j = a.lookup? name j) :
    b.Search name start visited found := by
  induction h with
  | outside => exact .outside
  | here hv => exact .here ((hagree _ (.head _)).trans hv)
  | @up i _ _ _ hs hnone _ ih =>
    obtain ⟨hi, hvisited⟩ := List.forall_mem_cons.mp hagree
    have hp := hparent i
    rw [hs] at hp
    obtain ⟨t, ht, hst⟩ := Option.map_eq_some_iff.mp hp
    exact .up ht (hi.trans hnone) (hst ▸ ih hvisited)

end Search

/-! ## What a name denotes -/

/-- A name denotes what a scope binds it to, or else what it denotes seen from the parent. -/
theorem resolve_eq_or (hdesc : a.Descending) (hs : a.get? i = some s) (name : String) :
    a.resolve (some i) name = (a.lookup? name i).or (a.resolve s.parent name) := by
  rw [resolve, chain_eq_cons hdesc hs, List.findSome?_cons, resolve]
  rcases a.lookup? name i with _ | v
  · rfl
  · rfl

/-- **The search ends with what `resolve` gives**, and visits no more scopes than there are up to where it starts. -/
theorem exists_search (hdesc : a.Descending) (hi : i < a.size) (name : String) :
    ∃ visited, a.Search name (some i) visited (a.resolve (some i) name) ∧ visited.length ≤ i + 1 := by
  -- the place of a scope bounds how many scopes are left, since its parent has a smaller one
  induction i using Nat.strongRecOn with
  | ind i ih =>
    obtain ⟨s, hs⟩ := exists_get?_of_lt hi
    rw [resolve_eq_or hdesc hs]
    rcases hv : a.lookup? name i with _ | v
    · rw [Option.none_or]
      rcases hp : s.parent with _ | p
      · have houtside : a.Search name s.parent [] none := hp ▸ .outside
        have hnone : a.resolve none name = none := by
          rw [resolve, chain, chainFrom_none, List.findSome?_nil]
        rw [hnone]
        exact ⟨[i], .up hs hv houtside, Nat.le_add_left 1 i⟩
      · have hlt := hdesc i s p hs hp
        obtain ⟨visited, hrest, hlength⟩ := ih p hlt (Nat.lt_trans hlt hi)
        refine ⟨i :: visited, .up hs hv (hp ▸ hrest), ?_⟩
        rw [List.length_cons]
        omega
    · exact ⟨[i], .here hv, Nat.le_add_left 1 i⟩

/-- An arena with the same parents has the parents before their children as well, … -/
theorem Descending.of_parent (hparent : ∀ j, (b.get? j).map (·.parent) = (a.get? j).map (·.parent))
    (hdesc : a.Descending) : b.Descending := by
  intro j t p ht hp
  have hj := hparent j
  rw [ht] at hj
  obtain ⟨s, hs, hst⟩ := Option.map_eq_some_iff.mp hj.symm
  exact hdesc j s p hs (hst.trans hp)

/-- … and a name denotes the same in it if the visited scopes bind it to the same. -/
theorem resolve_of_agree (hdesc : a.Descending) (hi : i < a.size) {visited : List Nat}
    (h : a.Search name (some i) visited (a.resolve (some i) name))
    (hparents : b.scopes.map (·.parent) = a.scopes.map (·.parent))
    (hagree : ∀ j ∈ visited, b.lookup? name j = a.lookup? name j) :
    b.resolve (some i) name = a.resolve (some i) name := by
  have hparent : ∀ j, (b.get? j).map (·.parent) = (a.get? j).map (·.parent) := by
    intro j
    have hj := congrArg (·[j]?) hparents
    simpa only [get?, List.getElem?_map] using hj
  have hsize : b.size = a.size := by
    simpa only [size, List.length_map] using congrArg List.length hparents
  obtain ⟨_, hsearch, -⟩ := exists_search (hdesc.of_parent hparent) (hsize ▸ hi) name
  exact ((h.of_agree hparent hagree).unique hsearch).2

/-- **A name denotes its nearest binding, and the search for that is short.** In an arena whose parents come before
their children, take any scope and any name. There is one course, and no other, that the search for the name takes
from there: it visits at most the scope and as many others as come before it in the arena, and it ends with what
`resolve` gives. This is what the first scope on the way up that binds the name binds it to, and nothing if there is
no such scope. Visited are the scopes on the way up to this one and no further. Whatever other scopes bind instead, be
they off the way up or further up, the name denotes what it did. -/
theorem resolve_nearest (hdesc : a.Descending) (hi : i < a.size) (name : String) :
    ∃ visited, a.Search name (some i) visited (a.resolve (some i) name) ∧
      (∀ visited' found, a.Search name (some i) visited' found →
        visited' = visited ∧ found = a.resolve (some i) name) ∧
      visited.length ≤ i + 1 ∧
      (∀ j, j ∈ visited ↔
        ∃ k, a.above (some i) k = some j ∧ ∀ m < k, a.boundAbove name (some i) m = none) ∧
      (∀ v, a.resolve (some i) name = some v ↔
        ∃ k, a.boundAbove name (some i) k = some v ∧ ∀ m < k, a.boundAbove name (some i) m = none) ∧
      (a.resolve (some i) name = none ↔ ∀ k, a.boundAbove name (some i) k = none) ∧
      ∀ b : Arena, b.scopes.map (·.parent) = a.scopes.map (·.parent) →
        (∀ j ∈ visited, b.lookup? name j = a.lookup? name j) →
        b.resolve (some i) name = a.resolve (some i) name := by
  obtain ⟨visited, hsearch, hlength⟩ := exists_search hdesc hi name
  refine ⟨visited, hsearch, ?_, hlength, ?_, ?_, hsearch.found_eq_none_iff, ?_⟩
  · exact fun _ _ hother => hsearch.unique hother
  · exact fun _ => hsearch.mem_visited_iff
  · exact fun _ => hsearch.found_eq_some_iff
  · exact fun _ hparents hagree => resolve_of_agree hdesc hi hsearch hparents hagree

/-- A block in the first of two functions of a module, where some of the scopes bind `x`. -/
def nestedScopes (binding : List Nat) : Arena :=
  let bindings (i : Nat) : Bindings := if i ∈ binding then [("x", { name := "x", scope := i })] else []
  ⟨[{ index := 0, kind := .global, node := default, parent := none, bindings := bindings 0 },
    { index := 1, kind := .module, node := default, parent := some 0, bindings := bindings 1 },
    { index := 2, kind := .function, node := default, parent := some 1, bindings := bindings 2 },
    { index := 3, kind := .function, node := default, parent := some 1, bindings := bindings 3 },
    { index := 4, kind := .block, node := default, parent := some 2, bindings := bindings 4 }]⟩

theorem nestedScopes_descending (binding : List Nat) : (nestedScopes binding).Descending := by
  intro i s p hs hp
  match i with
  | 0 =>
    cases hs
    cases hp
  | 1 | 2 | 3 | 4 =>
    cases hs
    cases hp
    decide
  | i + 5 => cases hs

/-- In the block `x` is the `x` of the function around it, whatever the module, the outermost scope and the other
function bind. -/
theorem resolve_nearest_shadowed :
    (nestedScopes [0, 1, 2]).Descending ∧ 4 < (nestedScopes [0, 1, 2]).size ∧
    (nestedScopes [0, 1, 2]).resolve (some 4) "x" = some { name := "x", scope := 2 } ∧
    (nestedScopes [2, 3]).resolve (some 4) "x" = some { name := "x", scope := 2 } := by
  have hsize : 4 < (nestedScopes [0, 1, 2]).size := by decide
  obtain ⟨visited, -, hunique, -, -, -, -, hlocal⟩ := resolve_nearest (nestedScopes_descending [0, 1, 2]) hsize "x"
  have hcourse : (nestedScopes [0, 1, 2]).Search "x" (some 4) [4, 2] (some { name := "x", scope := 2 }) :=
    .up rfl rfl (.here rfl)
  obtain ⟨rfl, hfound⟩ := hunique _ _ hcourse
  refine ⟨nestedScopes_descending _, hsize, hfound.symm, (hlocal (nestedScopes [2, 3]) rfl ?_).trans hfound.symm⟩
  intro j hj
  rcases List.mem_cons.mp hj with rfl | hj
  · rfl
  · obtain rfl := List.mem_singleton.mp hj
    rfl

end LoggerLint.Arena
