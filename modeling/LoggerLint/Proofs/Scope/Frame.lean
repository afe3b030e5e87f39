import LoggerLint.Proofs.Scope.Behind

/-!
# What items change in the scopes around them

Items that are played from a scope open scopes inside it and declare names. Most of the names stay in the scopes
that the items open. `Item.exposedAll` lists those that do not: the names declared from the scope itself, and
those that are hoisted out of the scopes inside it, which a function stops.

`Item.playAll_grown` is the frame of playing: of the scopes that were there, one is given new children, exposed
names are declared from it, and nothing else changes. It rests on where hoisted declarations go
(`Arena.varScope_eq`), which new scopes do not change for the old ones (`Arena.varScope_of_old`).
-/

namespace LoggerLint

namespace Arena

variable {a b : Arena}

/-! ## Where hoisted declarations go -/

/-- The way up from a scope is empty for none, and begins with the scope for one that is there. -/
theorem chain_getLast? (hdesc : a.Descending) {i : Nat} (hi : i < a.size) (fallback : Nat) :
    (a.chain (some i)).getLast?.getD fallback = (a.chain (some i)).getLast?.getD i := by
  obtain ⟨s, hs⟩ := exists_get?_of_lt hi
  rw [chain_eq_cons hdesc hs, List.getLast?_cons]
  rfl

/-- **A scope that holds hoisted declarations binds them; any other leaves them to its parent.** -/
theorem varScope_eq (hdesc : a.Descending) {i : Nat} {s : Scope} (hs : a.get? i = some s) :
    a.varScope i = if s.kind.holdsVars then i else (s.parent.map a.varScope).getD i := by
  have hat : a.holdsVarsAt i = s.kind.holdsVars := by simp [holdsVarsAt, hs]
  rw [varScope, chain_eq_cons hdesc hs]
  simp only [List.find?_cons, hat]
  cases hkind : s.kind.holdsVars with
  | true => rfl
  | false =>
    rcases hp : s.parent with _ | p
    · simp [chain]
    · have hlt : p < a.size := Nat.lt_trans (hdesc i s p hs hp) (lt_size_of_get? hs)
      obtain ⟨t, ht⟩ := exists_get?_of_lt hlt
      have hlast := chain_getLast? hdesc hlt i
      rw [chain_eq_cons hdesc ht] at hlast ⊢
      simp only [Option.map_some, Option.getD_some, varScope, chain_eq_cons hdesc ht, List.getLast?_cons_cons]
      simp [hlast]

/-- The scopes of `a` have their kinds and parents in `b` too. -/
def KeepsShape (a b : Arena) : Prop :=
  ∀ i < a.size, (b.get? i).map (fun s => (s.kind, s.parent)) = (a.get? i).map fun s => (s.kind, s.parent)

/-- **Old scopes leave hoisted declarations where they did**, whatever scopes are new. -/
theorem varScope_of_old (ha : a.Descending) (hb : b.Descending) (hold : a.KeepsShape b) {i : Nat}
    (hi : i < a.size) : b.varScope i = a.varScope i := by
  induction i using Nat.strongRecOn with
  | ind i ih =>
    obtain ⟨s, hs⟩ := exists_get?_of_lt hi
    have hshape := hold i hi
    rw [hs] at hshape
    obtain ⟨t, ht, heq⟩ := Option.map_eq_some_iff.mp hshape
    obtain ⟨hkind, hparent⟩ := Prod.mk.inj heq
    rw [varScope_eq ha hs, varScope_eq hb ht, hkind, hparent]
    rcases hp : s.parent with _ | p
    · rfl
    · have hlt := ha i s p hs hp
      rw [Option.map_some, Option.map_some, ih p hlt (Nat.lt_trans hlt hi)]

/-- A hoisted declaration binds in a scope that is there, and not in a later one. -/
theorem varScope_le (hdesc : a.Descending) {i : Nat} (hi : i < a.size) : a.varScope i ≤ i := by
  induction i using Nat.strongRecOn with
  | ind i ih =>
    obtain ⟨s, hs⟩ := exists_get?_of_lt hi
    rw [varScope_eq hdesc hs]
    split
    · exact Nat.le_refl i
    · rcases hp : s.parent with _ | p
      · exact Nat.le_refl i
      · have hlt := hdesc i s p hs hp
        exact Nat.le_trans (ih p hlt (Nat.lt_trans hlt hi)) (Nat.le_of_lt hlt)

/-! ## Parents come first -/

theorem Descending.of_skeleton (h : a.skeleton = b.skeleton) (hdesc : a.Descending) : b.Descending := by
  intro i t p ht hp
  obtain ⟨s, hs, -, hparent, -⟩ := exists_get?_of_skeleton h ht
  exact hdesc i s p hs (hparent.trans hp)

theorem Descending.openScope (hdesc : a.Descending) (kind : ScopeKind) (node : Node) {p : Nat}
    (hp : p < a.size) : (a.openScope kind node (some p)).Descending := by
  intro i t q ht hq
  have hlt := lt_size_of_get? ht
  rw [size_openScope] at hlt
  by_cases hnew : i = a.size
  · subst hnew
    rw [get?_openScope_size] at ht
    obtain rfl := Option.some.inj ht
    obtain rfl := Option.some.inj hq
    exact hp
  · obtain ⟨s, hs⟩ := exists_get?_of_lt (a := a) (i := i) (by omega)
    rw [get?_openScope_of_get? kind node hs] at ht
    obtain rfl := Option.some.inj ht
    refine hdesc i s q hs ?_
    by_cases h : i = p <;> simpa [h] using hq

theorem keepsShape_openScope (kind : ScopeKind) (node : Node) (p : Nat) :
    a.KeepsShape (a.openScope kind node (some p)) := by
  intro i hi
  rw [get?_openScope_lt _ _ _ _ hi, Option.map_map]
  refine congrArg (Option.map · _) (funext fun s => ?_)
  by_cases h : i = p <;> simp [h]

/-- A new scope leaves hoisted declarations where its parent does, unless it holds them itself. -/
theorem varScope_openScope (hdesc : a.Descending) (kind : ScopeKind) (node : Node) {p : Nat}
    (hp : p < a.size) :
    (a.openScope kind node (some p)).varScope a.size = if kind.holdsVars then a.size else a.varScope p := by
  have hopen := hdesc.openScope kind node hp
  rw [varScope_eq hopen (get?_openScope_size a kind node p)]
  simp only [Option.map_some, Option.getD_some,
    varScope_of_old hdesc hopen (keepsShape_openScope kind node p) hp]

end Arena

/-! ## Names that are exposed -/

namespace Item

mutual

/-- The declarations of an item that do not stay in the scopes it opens, in order. -/
def exposed : Item → List (Binder × String × Node)
  | .use _ _ => []
  | .declare binder name nameNode => [(binder, name, nameNode)]
  | .scope kind _ items => if kind.holdsVars then [] else (exposedAll items).filter (·.1.hoisted)
termination_by structural item => item

/-- The declarations of items that do not stay in the scopes they open, in order. -/
def exposedAll : List Item → List (Binder × String × Node)
  | [] => []
  | item :: rest => exposed item ++ exposedAll rest
termination_by structural items => items

end

theorem exposedAll_append (items more : List Item) :
    exposedAll (items ++ more) = exposedAll items ++ exposedAll more := by
  induction items with
  | nil => rfl
  | cons item rest ih => simp [exposedAll, ih]

end Item

namespace Bindings

/-- The definitions of all variables, in order. -/
def definitions (bindings : Bindings) : List Definition :=
  bindings.flatMap (·.2.definitions)

/-- A definition that is added to a variable is one more definition, and nothing else changes. -/
theorem definitions_alter (bindings : Bindings) (name : String) {fresh : Variable}
    (hfresh : fresh.definitions = []) (definition : Definition) :
    (bindings.alter name fresh fun v =>
      { v with definitions := v.definitions ++ [definition] }).definitions.Perm
        (definition :: bindings.definitions) := by
  induction bindings with
  | nil => simp [alter, definitions, hfresh]
  | cons entry rest ih =>
    obtain ⟨key, v⟩ := entry
    by_cases hkey : key = name
    · rw [alter, if_pos hkey]
      simp only [definitions, List.flatMap_cons]
      exact (List.perm_append_singleton definition v.definitions).append_right _
    · rw [alter, if_neg hkey]
      simp only [definitions, List.flatMap_cons]
      exact (ih.append_left _).trans List.perm_middle

/-- Add definitions to the variables of the scope at `i`, in order. -/
def declareAll (bindings : Bindings) (i : Nat) (declarations : List (Binder × String × Node)) : Bindings :=
  declarations.foldl (fun bindings (binder, name, nameNode) =>
    bindings.alter name { name, scope := i } fun v =>
      { v with definitions := v.definitions ++ [⟨binder.kind, nameNode, binder.node⟩] }) bindings

theorem declareAll_append (bindings : Bindings) (i : Nat) (declarations more : List (Binder × String × Node)) :
    bindings.declareAll i (declarations ++ more) = (bindings.declareAll i declarations).declareAll i more :=
  List.foldl_append

theorem declareAll_cons (bindings : Bindings) (i : Nat) (binder : Binder) (name : String) (nameNode : Node)
    (rest : List (Binder × String × Node)) :
    bindings.declareAll i ((binder, name, nameNode) :: rest) =
      (bindings.alter name { name, scope := i } fun v =>
        { v with definitions := v.definitions ++ [⟨binder.kind, nameNode, binder.node⟩] }).declareAll i rest :=
  rfl

theorem length_definitions_declareAll (bindings : Bindings) (i : Nat)
    (declarations : List (Binder × String × Node)) :
    (bindings.declareAll i declarations).definitions.length =
      bindings.definitions.length + declarations.length := by
  induction declarations generalizing bindings with
  | nil => rfl
  | cons declaration rest ih =>
    obtain ⟨binder, name, nameNode⟩ := declaration
    rw [declareAll_cons, ih, (definitions_alter bindings name rfl _).length_eq, List.length_cons, List.length_cons]
    omega

/-- Bindings in which something is declared are not what they were. -/
theorem declareAll_eq_self_iff {bindings : Bindings} {i : Nat} {declarations : List (Binder × String × Node)} :
    bindings.declareAll i declarations = bindings ↔ declarations = [] := by
  constructor
  · intro h
    have hlength := bindings.length_definitions_declareAll i declarations
    rw [h] at hlength
    exact List.eq_nil_of_length_eq_zero (by omega)
  · rintro rfl
    rfl

end Bindings

namespace Arena

variable {a b c : Arena} {i : Nat} {declarations more : List (Binder × String × Node)} {opened : List Nat}

/-- The declarations, made from the scope at `i`, that bind in the scope at `j`. -/
def reaching (a : Arena) (i : Nat) (declarations : List (Binder × String × Node)) (j : Nat) :
    List (Binder × String × Node) :=
  declarations.filter fun declaration => (if declaration.1.hoisted then a.varScope i else i) == j

theorem reaching_append (a : Arena) (i : Nat) (declarations more : List (Binder × String × Node)) (j : Nat) :
    a.reaching i (declarations ++ more) j = a.reaching i declarations j ++ a.reaching i more j :=
  List.filter_append ..

/-- A scope after names were declared in it and scopes were opened in it. -/
def grow (s : Scope) (j : Nat) (declarations : List (Binder × String × Node)) (opened : List Nat) : Scope :=
  { s with bindings := s.bindings.declareAll j declarations, children := s.children ++ opened }

/-- **The frame**: `b` is `a` with new scopes, `opened` of them in the scope at `i`, and with names that were
declared from there. Nothing else about the old scopes is changed. -/
structure Grown (a : Arena) (i : Nat) (declarations : List (Binder × String × Node)) (opened : List Nat)
    (b : Arena) : Prop where
  /-- parents still come before their children -/
  descending : b.Descending
  /-- no scope is taken away -/
  size_le : a.size ≤ b.size
  /-- an old scope binds the names that reach it, and the one at `i` has new children -/
  old : ∀ j < a.size, b.get? j = (a.get? j).map fun s =>
    grow s j (a.reaching i declarations j) (if j = i then opened else [])

namespace Grown

theorem refl (hdesc : a.Descending) (i : Nat) : a.Grown i [] [] a where
  descending := hdesc
  size_le := Nat.le_refl _
  old j hj := by
    obtain ⟨s, hs⟩ := exists_get?_of_lt hj
    simp [hs, grow, reaching, Bindings.declareAll]

theorem keepsShape (h : a.Grown i declarations opened b) : a.KeepsShape b := by
  intro j hj
  rw [h.old j hj, Option.map_map]
  rfl

/-- What is declared after growing reaches the old scopes that it would have reached before. -/
theorem reaching_eq (hdesc : a.Descending) (hi : i < a.size) (h : a.Grown i declarations opened b) (j : Nat) :
    b.reaching i more j = a.reaching i more j := by
  rw [reaching, reaching, varScope_of_old hdesc h.descending h.keepsShape hi]

theorem trans (hdesc : a.Descending) (hi : i < a.size) {opened' : List Nat}
    (hfirst : a.Grown i declarations opened b) (hrest : b.Grown i more opened' c) :
    a.Grown i (declarations ++ more) (opened ++ opened') c where
  descending := hrest.descending
  size_le := Nat.le_trans hfirst.size_le hrest.size_le
  old j hj := by
    rw [hrest.old j (Nat.lt_of_lt_of_le hj hfirst.size_le), hfirst.old j hj, Option.map_map,
      reaching_append, hfirst.reaching_eq hdesc hi]
    refine congrArg (Option.map · _) (funext fun s => ?_)
    by_cases h : j = i <;> simp [grow, h, Bindings.declareAll_append]

theorem declare (hdesc : a.Descending) (i : Nat) (binder : Binder) (name : String) (nameNode : Node) :
    a.Grown i [(binder, name, nameNode)] [] (Item.enter a i binder name nameNode) where
  descending := hdesc.of_skeleton (Item.skeleton_enter a i binder name nameNode).symm
  size_le := Nat.le_of_eq (size_eq_of_skeleton (Item.skeleton_enter a i binder name nameNode)).symm
  old j hj := by
    obtain ⟨s, hs⟩ := exists_get?_of_lt hj
    rw [Item.enter, Arena.declare]
    generalize htarget : (if binder.hoisted then a.varScope i else i) = target
    by_cases h : target = j
    · subst h
      rw [get?_modify_self, hs]
      simp [grow, reaching, htarget, Bindings.declareAll]
    · rw [get?_modify_ne _ _ h, hs]
      simp [grow, reaching, htarget, h, Bindings.declareAll]

/-- **A scope keeps what is declared in it**, but for what is hoisted through it. -/
theorem scope (hdesc : a.Descending) (hi : i < a.size) {kind : ScopeKind} {node : Node}
    (h : (a.openScope kind node (some i)).Grown a.size declarations opened b) :
    a.Grown i (if kind.holdsVars then [] else declarations.filter (·.1.hoisted)) [a.size] b where
  descending := h.descending
  size_le := by
    have hsize := h.size_le
    rw [size_openScope] at hsize
    exact Nat.le_of_succ_le hsize
  old j hj := by
    have hlt : j < (a.openScope kind node (some i)).size := by
      rw [size_openScope]
      exact Nat.lt_succ_of_lt hj
    have hreach : (a.openScope kind node (some i)).reaching a.size declarations j =
        a.reaching i (if kind.holdsVars then [] else declarations.filter (·.1.hoisted)) j := by
      have hne : a.size ≠ j := Nat.ne_of_gt hj
      rw [reaching, reaching, varScope_openScope hdesc kind node hi]
      cases kind.holdsVars with
      | true => simp [hne]
      | false =>
        simp only [Bool.false_eq_true, if_false, List.filter_filter]
        refine List.filter_congr fun declaration _ => ?_
        cases declaration.1.hoisted <;> simp [hne]
    rw [h.old j hlt, get?_openScope_lt _ _ _ _ hj, Option.map_map, hreach]
    refine congrArg (Option.map · _) (funext fun s => ?_)
    have hne : j ≠ a.size := Nat.ne_of_lt hj
    by_cases heq : j = i
    · subst heq
      simp [grow, hne]
    · simp [grow, heq, hne]

/-- **The old scopes bind what they bound before exactly when nothing is exposed.** -/
theorem bindings_eq_iff (hdesc : a.Descending) (hi : i < a.size) (h : a.Grown i declarations opened b) :
    (∀ j < a.size, (b.get? j).map (·.bindings) = (a.get? j).map (·.bindings)) ↔ declarations = [] := by
  constructor
  · refine fun hsame => List.eq_nil_iff_forall_not_mem.mpr fun declaration hmem => ?_
    -- the scope that the declaration reaches is an old one
    generalize htarget : (if declaration.1.hoisted then a.varScope i else i) = j
    have hj : j < a.size := by
      rw [← htarget]
      split
      · exact Nat.lt_of_le_of_lt (varScope_le hdesc hi) hi
      · exact hi
    obtain ⟨s, hs⟩ := exists_get?_of_lt hj
    have hbindings := hsame j hj
    rw [h.old j hj, hs] at hbindings
    have hnone := Bindings.declareAll_eq_self_iff.mp (Option.some.inj hbindings)
    have hreaches : declaration ∈ a.reaching i declarations j :=
      List.mem_filter.mpr ⟨hmem, by simp [htarget]⟩
    rw [hnone] at hreaches
    cases hreaches
  · rintro rfl j hj
    rw [h.old j hj, Option.map_map]
    rfl

end Grown

end Arena

/-! ## Playing -/

namespace Item

open Arena

mutual

theorem play_grown {a : Arena} (hdesc : a.Descending) {i : Nat} (hi : i < a.size) :
    (item : Item) → ∃ opened, a.Grown i (exposed item) opened (play a i item).1
  | .use _ _ => ⟨[], .refl hdesc i⟩
  | .declare binder name nameNode => ⟨[], .declare hdesc i binder name nameNode⟩
  | .scope kind node items => by
    have hsize : a.size < (a.openScope kind node (some i)).size := by simp
    obtain ⟨opened, hinner⟩ := playAll_grown (hdesc.openScope kind node hi) hsize items
    exact ⟨[a.size], hinner.scope hdesc hi⟩

/-- **Playing items changes the old scopes by what the items expose**, and gives the scope they are played from
new children. -/
theorem playAll_grown {a : Arena} (hdesc : a.Descending) {i : Nat} (hi : i < a.size) :
    (items : List Item) → ∃ opened, a.Grown i (exposedAll items) opened (playAll a i items).1
  | [] => ⟨[], .refl hdesc i⟩
  | item :: rest => by
    obtain ⟨opened, hfirst⟩ := play_grown hdesc hi item
    obtain ⟨opened', hrest⟩ :=
      playAll_grown hfirst.descending (Nat.lt_of_lt_of_le hi hfirst.size_le) rest
    exact ⟨opened ++ opened', hfirst.trans hdesc hi hrest⟩

end

theorem size_le_of_kinds {a b : Arena} {kinds : List ScopeKind} (h : b.kinds = a.kinds ++ kinds) :
    a.size ≤ b.size := by
  have hlength := congrArg List.length h
  simp only [Arena.kinds, List.length_append, List.length_map] at hlength
  simp only [Arena.size]
  omega

mutual

theorem scope_of_mem_play (a : Arena) (i : Nat) :
    (item : Item) → ∀ use ∈ (play a i item).2, use.scope = i ∨ a.size ≤ use.scope
  | .use name site => by
    intro use huse
    obtain rfl := List.mem_singleton.mp huse
    exact .inl rfl
  | .declare _ _ _ => by
    intro use huse
    cases huse
  | .scope kind node items => by
    intro use huse
    rcases scope_of_mem_playAll (a.openScope kind node (some i)) a.size items use huse with heq | hle
    · exact .inr (Nat.le_of_eq heq.symm)
    · rw [size_openScope] at hle
      exact .inr (Nat.le_of_succ_le hle)

/-- **A use stands in the scope that the items are played from or in a new one.** -/
theorem scope_of_mem_playAll (a : Arena) (i : Nat) :
    (items : List Item) → ∀ use ∈ (playAll a i items).2, use.scope = i ∨ a.size ≤ use.scope
  | [] => by
    intro use huse
    cases huse
  | item :: rest => by
    intro use huse
    rcases List.mem_append.mp huse with hfirst | hrest
    · exact scope_of_mem_play a i item use hfirst
    · have hsize := size_le_of_kinds (kinds_play a i item)
      exact (scope_of_mem_playAll _ i rest use hrest).imp_right (Nat.le_trans hsize)

end

end Item

end LoggerLint
