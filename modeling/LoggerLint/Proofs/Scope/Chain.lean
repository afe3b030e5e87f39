import LoggerLint.Scope.Arena

/-!
# Chains of scopes

What the operations of an arena do to the scope at a place, and how a look-up goes along a chain. In an
arena whose parents come before their children (`Descending`) a chain follows the parents one by one
(`chain_eq_cons`), although it is computed with a bound on its length. `resolve` looks at nothing but
the chain and the bindings on it, so an arena that keeps its parents and bindings keeps what names
denote.
-/

namespace LoggerLint

namespace Bindings

/-! ## Bindings -/

@[simp] theorem get?_alter_self (bindings : Bindings) (name : String) (fresh : Variable)
    (change : Variable → Variable) :
    (bindings.alter name fresh change).get? name =
      some (change ((bindings.get? name).getD fresh)) := by
  induction bindings with
  | nil => simp [alter, get?]
  | cons entry rest ih =>
    obtain ⟨key, v⟩ := entry
    by_cases hkey : key = name
    · simp [alter, get?, hkey]
    · have hne : (name == key) = false := beq_false_of_ne (Ne.symm hkey)
      simpa [alter, get?, hkey, List.lookup_cons, hne] using ih

theorem get?_alter_ne (bindings : Bindings) {name other : String} (fresh : Variable)
    (change : Variable → Variable) (hne : other ≠ name) :
    (bindings.alter name fresh change).get? other = bindings.get? other := by
  induction bindings with
  | nil => simp [alter, get?, List.lookup_cons, beq_false_of_ne hne]
  | cons entry rest ih =>
    obtain ⟨key, v⟩ := entry
    by_cases hkey : key = name
    · have hother : (other == key) = false := beq_false_of_ne (hkey ▸ hne)
      simp [alter, get?, hkey, List.lookup_cons, beq_false_of_ne hne]
    · have ih' : List.lookup other (alter name fresh change rest) = List.lookup other rest := ih
      simp [alter, get?, hkey, List.lookup_cons, ih']

end Bindings

namespace Arena

/-! ## Places -/

theorem lt_size_of_get? {a : Arena} {i : Nat} {s : Scope} (h : a.get? i = some s) : i < a.size :=
  (List.getElem?_eq_some_iff.mp h).1

theorem exists_get?_of_lt {a : Arena} {i : Nat} (h : i < a.size) : ∃ s, a.get? i = some s :=
  ⟨a.scopes[i], List.getElem?_eq_getElem h⟩

@[simp] theorem size_modify (a : Arena) (i : Nat) (change : Scope → Scope) :
    (a.modify i change).size = a.size := by
  simp [modify, size]

theorem get?_modify_self (a : Arena) (i : Nat) (change : Scope → Scope) :
    (a.modify i change).get? i = (a.get? i).map change := by
  simp [modify, get?]

theorem get?_modify_ne (a : Arena) {i j : Nat} (change : Scope → Scope) (hne : i ≠ j) :
    (a.modify i change).get? j = a.get? j := by
  simp [modify, get?, hne]

@[simp] theorem size_openScope (a : Arena) (kind : ScopeKind) (node : Node) (parent : Option Nat) :
    (a.openScope kind node parent).size = a.size + 1 := by
  cases parent <;> simp [openScope, size, modify]

/-- The scope that was opened last. -/
theorem get?_openScope_size (a : Arena) (kind : ScopeKind) (node : Node) (p : Nat) :
    (a.openScope kind node (some p)).get? a.size =
      some { index := a.size, kind, node, parent := some p } := by
  simp [openScope, get?, size, modify]

/-- An older scope stays as it is, but for its children if it is the parent. -/
theorem get?_openScope_lt (a : Arena) (kind : ScopeKind) (node : Node) (p : Nat) {i : Nat}
    (hi : i < a.size) :
    (a.openScope kind node (some p)).get? i =
      (a.get? i).map fun s =>
        if i = p then { s with children := s.children ++ [a.size] } else s := by
  have hi' : i < (a.scopes.modify p fun s =>
      { s with children := s.children ++ [a.size] }).length := by
    simpa [size] using hi
  simp only [openScope, get?, modify, List.getElem?_append_left hi', List.getElem?_modify]
  by_cases h : p = i
  · simp [h]
  · simp [h, Ne.symm h]

/-- What a scope binds is not changed by opening another. -/
theorem lookup?_openScope (a : Arena) (kind : ScopeKind) (node : Node) (p : Nat) (name : String)
    (i : Nat) : (a.openScope kind node (some p)).lookup? name i = a.lookup? name i := by
  rcases Nat.lt_trichotomy i a.size with hlt | rfl | hgt
  · obtain ⟨s, hs⟩ := exists_get?_of_lt hlt
    rw [lookup?, lookup?, get?_openScope_lt _ _ _ _ hlt, hs]
    by_cases h : i = p <;> simp [h]
  · have hnone : a.get? a.size = none := List.getElem?_eq_none (Nat.le_refl _)
    simp [lookup?, get?_openScope_size, hnone, Bindings.get?]
  · have hnone : a.get? i = none := List.getElem?_eq_none (Nat.le_of_lt hgt)
    have hsize : (a.openScope kind node (some p)).size ≤ i := by
      rw [size_openScope]
      exact hgt
    have hnone' : (a.openScope kind node (some p)).get? i = none := List.getElem?_eq_none hsize
    simp [lookup?, hnone, hnone']

/-! ## Views of the scopes -/

section

variable {β : Type} {view : Scope → β}

/-- What a view tells of the scopes changes at one place when a scope is changed, … -/
theorem map_modify (scopes : List Scope) (i : Nat) {change : Scope → Scope} {viewed : β → β}
    (h : ∀ s, view (change s) = viewed (view s)) :
    (scopes.modify i change).map view = (scopes.map view).modify i viewed := by
  apply List.ext_getElem?
  intro j
  rw [List.getElem?_map, List.getElem?_modify, List.getElem?_modify, List.getElem?_map]
  rcases scopes[j]? with _ | s
  · rfl
  · by_cases hj : i = j
    · simp [hj, h]
    · simp [hj]

/-- … and not at all when the view does not see the change. -/
theorem map_modify_of_unseen (scopes : List Scope) (i : Nat) {change : Scope → Scope}
    (h : ∀ s, view (change s) = view s) : (scopes.modify i change).map view = scopes.map view := by
  have hid : ∀ s, view (change s) = id (view s) := h
  rw [map_modify scopes i hid, List.modify_id]

/-- An opened scope enters its parent's children and stands at the end. -/
theorem map_openScope (a : Arena) (kind : ScopeKind) (node : Node) (p : Nat) {viewed : β → β}
    (h : ∀ s, view { s with children := s.children ++ [a.size] } = viewed (view s)) :
    (a.openScope kind node (some p)).scopes.map view =
      (a.scopes.map view).modify p viewed ++ [view { index := a.size, kind, node, parent := some p }] := by
  rw [openScope, List.map_append, ← map_modify a.scopes p h]
  rfl

/-- A view that does not see children sees the opened scope only. -/
theorem map_openScope_of_unseen (a : Arena) (kind : ScopeKind) (node : Node) (p : Nat)
    (h : ∀ s, view { s with children := s.children ++ [a.size] } = view s) :
    (a.openScope kind node (some p)).scopes.map view =
      a.scopes.map view ++ [view { index := a.size, kind, node, parent := some p }] := by
  have hid : ∀ s, view { s with children := s.children ++ [a.size] } = id (view s) := h
  rw [map_openScope a kind node p hid, List.modify_id]

end

/-! ## Chains -/

/-- Every scope comes after its parent. -/
def Descending (a : Arena) : Prop :=
  ∀ i s p, a.get? i = some s → s.parent = some p → p < i

@[simp] theorem chainFrom_none (a : Arena) (steps : Nat) : a.chainFrom steps none = [] := by
  cases steps <;> rfl

/-- A chain from `i` has at most `i + 1` members, so a greater bound on its length does not matter. -/
theorem chainFrom_eq_of_lt {a : Arena} (hdesc : a.Descending) {i n m : Nat} (hn : i < n)
    (hm : i < m) : a.chainFrom n (some i) = a.chainFrom m (some i) := by
  induction i using Nat.strongRecOn generalizing n m with
  | ind i ih =>
    obtain ⟨n, rfl⟩ : ∃ k, n = k + 1 := ⟨n - 1, by omega⟩
    obtain ⟨m, rfl⟩ : ∃ k, m = k + 1 := ⟨m - 1, by omega⟩
    simp only [chainFrom]
    rcases hs : a.get? i with _ | s
    · rfl
    · rcases hp : s.parent with _ | p
      · simp [hp]
      · have hlt := hdesc i s p hs hp
        have htail : a.chainFrom n (some p) = a.chainFrom m (some p) :=
          ih p hlt (by omega) (by omega)
        simp only [hp, htail]

/-- **A chain follows the parents**: a scope's chain is the scope itself and its parent's chain. -/
theorem chain_eq_cons {a : Arena} (hdesc : a.Descending) {i : Nat} {s : Scope}
    (hs : a.get? i = some s) : a.chain (some i) = i :: a.chain s.parent := by
  have hi := lt_size_of_get? hs
  obtain ⟨n, hn⟩ : ∃ n, a.size = n + 1 := ⟨a.size - 1, by omega⟩
  have hstep : a.chain (some i) = i :: a.chainFrom n s.parent := by
    simp only [chain, hn, chainFrom, hs]
  rw [hstep, chain]
  rcases hp : s.parent with _ | p
  · simp
  · have hlt := hdesc i s p hs hp
    rw [chainFrom_eq_of_lt hdesc (i := p) (n := n) (m := a.size) (by omega) (by omega)]

theorem chainFrom_congr {a b : Arena}
    (hparent : ∀ i, (a.get? i).map (·.parent) = (b.get? i).map (·.parent)) (steps : Nat)
    (start : Option Nat) : a.chainFrom steps start = b.chainFrom steps start := by
  induction steps generalizing start with
  | zero => rfl
  | succ steps ih =>
    rcases start with _ | i
    · simp
    · have hi := hparent i
      simp only [chainFrom]
      rcases ha : a.get? i with _ | s
      · rw [ha] at hi
        have hb : b.get? i = none := Option.map_eq_none_iff.mp hi.symm
        rw [hb]
      · rw [ha] at hi
        obtain ⟨t, hb, hst⟩ := Option.map_eq_some_iff.mp hi.symm
        simp only [hb, hst, ih]

/-- Arenas with the same parents have the same chains. -/
theorem chain_congr {a b : Arena} (hsize : a.size = b.size)
    (hparent : ∀ i, (a.get? i).map (·.parent) = (b.get? i).map (·.parent)) (start : Option Nat) :
    a.chain start = b.chain start := by
  rw [chain, chain, hsize, chainFrom_congr hparent]

end Arena

end LoggerLint
