import LoggerLint.Proofs.Data.Entries
import LoggerLint.Proofs.Scope.Finished

/-!
# Where uses are entered

Every use that is met in a file ends up at one place of its finished arena: with the variable that it
denotes, or among the uses that nothing binds. `Arena.Partitions` says what that means, and
`ScopeTree.analyze_partitions_uses` that it holds of every file.

Settling one use enters it once (`Arena.entered_settle`), and the uses of a whole file follow by induction
(`Arena.entered_settleAll`). What a use denotes is the same in every arena on the way, so it may be looked
up in the finished one. The variables of a scope stand under distinct names (`Arena.Distinct`), so those
that a look-up finds are all there are.
-/

namespace LoggerLint

/-- A change that adds one value to what one element gives adds it to what the list gives. -/
theorem perm_flatMap_modify {α β : Type} {f : α → List β} {g : α → α} {xs : List α} {i : Nat} {a : α}
    {b : β} (ha : xs[i]? = some a) (hb : (f (g a)).Perm (b :: f a)) :
    ((xs.modify i g).flatMap f).Perm (b :: xs.flatMap f) := by
  induction xs generalizing i with
  | nil => cases ha
  | cons x rest ih =>
    cases i with
    | zero =>
      obtain rfl : x = a := Option.some.inj ha
      rw [List.modify_zero_cons, List.flatMap_cons, List.flatMap_cons]
      exact hb.append_right _
    | succ i =>
      rw [List.modify_succ_cons, List.flatMap_cons, List.flatMap_cons]
      exact ((ih ha).append_left _).trans List.perm_middle

namespace Bindings

/-- The uses of all variables, in order. -/
def references (bindings : Bindings) : List Reference :=
  bindings.flatMap (·.2.references)

theorem mem_names_alter {bindings : Bindings} {name other : String} {fresh : Variable}
    {change : Variable → Variable} :
    other ∈ (bindings.alter name fresh change).map Prod.fst ↔
      other = name ∨ other ∈ bindings.map Prod.fst := by
  induction bindings with
  | nil => simp [alter]
  | cons entry rest ih =>
    obtain ⟨key, v⟩ := entry
    by_cases hkey : key = name
    · subst hkey
      simp [alter]
    · rw [alter, if_neg hkey, List.map_cons, List.mem_cons, ih, List.map_cons, List.mem_cons]
      exact or_left_comm

theorem nodup_names_alter {bindings : Bindings} (h : (bindings.map Prod.fst).Nodup) (name : String)
    (fresh : Variable) (change : Variable → Variable) :
    ((bindings.alter name fresh change).map Prod.fst).Nodup := by
  induction bindings with
  | nil => simp [alter]
  | cons entry rest ih =>
    obtain ⟨key, v⟩ := entry
    rw [List.map_cons, List.nodup_cons] at h
    by_cases hkey : key = name
    · rw [alter, if_pos hkey]
      exact List.nodup_cons.mpr h
    · rw [alter, if_neg hkey]
      refine List.nodup_cons.mpr ⟨fun hmem => ?_, ih h.2⟩
      exact (mem_names_alter.mp hmem).elim hkey h.1

/-- A use that is entered with a bound name is one more use, and nothing else changes. -/
theorem references_alter {bindings : Bindings} {name : String} {found : Variable}
    (h : bindings.get? name = some found) (fresh : Variable) (use : Reference) :
    (bindings.alter name fresh fun v => { v with references := v.references ++ [use] }).references.Perm
      (use :: bindings.references) := by
  induction bindings with
  | nil => cases h
  | cons entry rest ih =>
    obtain ⟨key, v⟩ := entry
    by_cases hkey : key = name
    · rw [alter, if_pos hkey]
      simp only [references, List.flatMap_cons]
      exact (List.perm_append_singleton use v.references).append_right _
    · have hrest : Bindings.get? rest name = some found := by
        rw [Bindings.get?, List.lookup_cons, beq_false_of_ne (Ne.symm hkey)] at h
        exact h
      rw [alter, if_neg hkey]
      simp only [references, List.flatMap_cons]
      exact ((ih hrest).append_left _).trans List.perm_middle

end Bindings

namespace Arena

/-! ## Distinct names -/

/-- The variables of a scope stand under distinct names. -/
def Distinct (a : Arena) : Prop :=
  ∀ i s, a.get? i = some s → (s.bindings.map Prod.fst).Nodup

theorem Distinct.modify {a : Arena} (hdist : a.Distinct) (i : Nat) {change : Scope → Scope}
    (hchange : ∀ s, (s.bindings.map Prod.fst).Nodup → ((change s).bindings.map Prod.fst).Nodup) :
    (a.modify i change).Distinct := by
  intro j t ht
  by_cases hij : i = j
  · subst hij
    rw [get?_modify_self] at ht
    obtain ⟨s, hs, rfl⟩ := Option.map_eq_some_iff.mp ht
    exact hchange s (hdist i s hs)
  · rw [get?_modify_ne _ _ hij] at ht
    exact hdist j t ht

theorem Distinct.openScope {a : Arena} (hdist : a.Distinct) (kind : ScopeKind) (node : Node) (p : Nat) :
    (a.openScope kind node (some p)).Distinct := by
  intro i t ht
  have hlt := lt_size_of_get? ht
  rw [size_openScope] at hlt
  by_cases hnew : i = a.size
  · subst hnew
    rw [get?_openScope_size] at ht
    obtain rfl := Option.some.inj ht
    exact List.nodup_nil
  · rw [get?_openScope_lt _ _ _ _ (by omega)] at ht
    obtain ⟨s, hs, rfl⟩ := Option.map_eq_some_iff.mp ht
    split <;> exact hdist i s hs

theorem Distinct.settle {a : Arena} (hdist : a.Distinct) (use : Reference) : (a.settle use).Distinct := by
  rw [Arena.settle]
  split
  · exact hdist.modify _ fun _ h => h
  · exact hdist.modify _ fun _ h => Bindings.nodup_names_alter h _ _ _

theorem Distinct.settleAll {a : Arena} (hdist : a.Distinct) (uses : List Reference) :
    (uses.foldl Arena.settle a).Distinct := by
  induction uses generalizing a with
  | nil => exact hdist
  | cons use rest ih => exact ih (hdist.settle use)

theorem Distinct.lookup?_of_mem {a : Arena} (hdist : a.Distinct) {i : Nat} {s : Scope}
    (hs : a.get? i = some s) {name : String} {v : Variable} (h : (name, v) ∈ s.bindings) :
    a.lookup? name i = some v := by
  rw [lookup?, hs]
  exact lookup_of_mem (hdist i s hs) h

/-! ## Entering uses -/

/-- The uses that an arena holds: those of the variables of every scope, and those that are left over. -/
def entered (a : Arena) : List Reference :=
  a.scopes.flatMap fun s => s.bindings.references ++ s.through

/-- **Settling a use enters it once**, and no other use is lost or doubled. -/
theorem entered_settle {a : Arena} (hbound : a.Bound) (hsize : 0 < a.size) {use : Reference}
    (hfresh : use.target = none) :
    (a.settle use).entered.Perm ({ use with target := a.target? use } :: a.entered) := by
  rcases hres : a.resolve (some use.scope) use.name with _ | found
  · obtain ⟨s, hs⟩ := exists_get?_of_lt hsize
    have hmark : { use with target := a.target? use } = use := by
      rw [target?, hres, Option.map_none, ← hfresh]
    rw [hmark, Arena.settle, hres]
    refine perm_flatMap_modify hs ?_
    rw [← List.append_assoc]
    exact List.perm_append_singleton _ _
  · obtain ⟨j, -, hfound⟩ := exists_lookup?_of_resolve hres
    obtain ⟨-, rfl⟩ := hbound.placed _ _ _ hfound
    obtain ⟨s, hs, hget⟩ := Option.bind_eq_some_iff.mp hfound
    rw [target?, hres, Option.map_some, Arena.settle, hres]
    refine perm_flatMap_modify hs ?_
    exact (Bindings.references_alter hget _ _).append_right _

theorem target?_settleAll {a : Arena} (hbound : a.Bound) (uses : List Reference) (other : Reference) :
    (uses.foldl settle a).target? other = a.target? other := by
  induction uses generalizing a with
  | nil => rfl
  | cons use rest ih => rw [List.foldl_cons, ih (hbound.settle use), target?_settle hbound]

/-- **Settling uses enters each of them once**, marked with the scope of the variable it denotes. -/
theorem entered_settleAll {a : Arena} (hbound : a.Bound) (hsize : 0 < a.size) {uses : List Reference}
    (hfresh : ∀ use ∈ uses, use.target = none) :
    (uses.foldl settle a).entered.Perm
      (uses.map (fun use => { use with target := a.target? use }) ++ a.entered) := by
  induction uses generalizing a with
  | nil => exact .refl _
  | cons use rest ih =>
    have hsize' : 0 < (a.settle use).size := by
      rw [size_eq_of_skeleton (skeleton_settle a use)]
      exact hsize
    have hrest := ih (hbound.settle use) hsize' fun other hother =>
      hfresh other (List.mem_cons_of_mem _ hother)
    simp only [target?_settle hbound] at hrest
    have hfirst := entered_settle hbound hsize (hfresh use (List.mem_cons_self ..))
    exact (hrest.trans (hfirst.append_left _)).trans List.perm_middle

/-- An arena in which no use is entered holds none. -/
theorem Unused.entered {a : Arena} (hunused : a.Unused) (hdist : a.Distinct) : a.entered = [] := by
  refine List.flatMap_eq_nil_iff.mpr fun s hmem => ?_
  obtain ⟨i, hs⟩ := List.getElem?_of_mem hmem
  refine List.append_eq_nil_iff.mpr ⟨List.flatMap_eq_nil_iff.mpr fun entry hentry => ?_,
    hunused.through i s hs⟩
  exact hunused.references entry.1 i entry.2 (hdist.lookup?_of_mem hs hentry)

/-! ## What a use denotes -/

/-- A use denotes a variable exactly when it has its name and its scope for target. -/
theorem resolve_eq_some_iff {a : Arena} (hbound : a.Bound) {name : String} {i : Nat} {v : Variable}
    (hv : a.lookup? name i = some v) (use : Reference) :
    a.resolve (some use.scope) use.name = some v ↔ use.name = name ∧ a.target? use = some i := by
  obtain ⟨hname, hscope⟩ := hbound.placed _ _ _ hv
  constructor
  · intro hres
    obtain ⟨j, -, hfound⟩ := exists_lookup?_of_resolve hres
    refine ⟨(hbound.placed _ _ _ hfound).1.symm.trans hname, ?_⟩
    rw [target?, hres, Option.map_some, hscope]
  · rintro ⟨rfl, htarget⟩
    obtain ⟨found, hres, hfound⟩ := Option.map_eq_some_iff.mp htarget
    obtain ⟨j, -, hlookup⟩ := exists_lookup?_of_resolve hres
    obtain rfl : j = i := (hbound.placed _ _ _ hlookup).2.symm.trans hfound
    rw [hres, ← hlookup, hv]

theorem target?_eq_none_iff_unbound {a : Arena} (use : Reference) :
    a.target? use = none ↔
      ∀ j ∈ a.chain (some use.scope), a.lookup? use.name j = none := by
  rw [target?, Option.map_eq_none_iff, resolve, List.findSome?_eq_none_iff]

end Arena

/-! ## Whole files -/

open Classical in
/-- An arena holds the uses of a file, each at its one place. -/
structure Arena.Partitions (a : Arena) (source : Bytes) (uses : List Reference) : Prop where
  /-- every use is entered exactly once, marked with the scope of the variable that it denotes -/
  once : a.entered.Perm (uses.map fun use => { use with target := a.target? use })
  /-- what a use denotes is a variable of the arena, and its name is the text of the use -/
  denoted : ∀ use ∈ uses, ∀ v, a.resolve (some use.scope) use.name = some v →
    v.name = use.site.node.text source ∧ ∃ s, a.get? v.scope = some s ∧ (v.name, v) ∈ s.bindings
  /-- the variables of a scope stand under distinct names, and know their names and their scope -/
  placed : ∀ i s, a.get? i = some s →
    (s.bindings.map Prod.fst).Nodup ∧ ∀ name v, (name, v) ∈ s.bindings → v.name = name ∧ v.scope = i
  /-- the uses of a variable are those that denote it, in the order in which they were met -/
  references : ∀ i s name v, a.get? i = some s → (name, v) ∈ s.bindings →
    v.references = (uses.filter fun use => a.resolve (some use.scope) use.name = some v).map
      fun use => { use with target := some i }
  /-- the outermost scope holds the uses whose name no scope on their way up binds, in order, and they
  have no target -/
  leftOver : ∀ s, a.get? 0 = some s →
    s.through = (uses.filter fun use => ∀ j ∈ a.chain (some use.scope), a.lookup? use.name j = none) ∧
      ∀ use ∈ s.through, use.target = none
  /-- no other scope holds any such use -/
  inner : ∀ i s, a.get? i = some s → i ≠ 0 → s.through = []

namespace ScopeTree

theorem nodup_names_ambientBindings (globals : List String) :
    ((ambientBindings globals).map Prod.fst).Nodup := by
  suffices h : ∀ bindings : Bindings, (bindings.map Prod.fst).Nodup →
      ((globals.foldl (fun bindings name => bindings.alter name { name, scope := 0 } id)
        bindings).map Prod.fst).Nodup from
    h [] List.nodup_nil
  induction globals with
  | nil => exact fun _ h => h
  | cons first rest ih => exact fun bindings h => ih _ (Bindings.nodup_names_alter h _ _ _)

theorem initialArena_distinct (root : Node) (globals : List String) :
    (initialArena root globals).Distinct := by
  rw [initialArena_eq]
  intro i s hs
  match i with
  | 0 =>
    obtain rfl := Option.some.inj hs
    exact nodup_names_ambientBindings globals
  | 1 =>
    obtain rfl := Option.some.inj hs
    exact List.nodup_nil
  | i + 2 => cases hs

variable (source : Bytes) (root : Node) (globals : List String)

theorem walk_distinct : (walk source root globals).1.Distinct := by
  refine (Item.playAll_preserves (P := Arena.Distinct) ?_ ?_ _ 1 (initialArena_distinct root globals)
    (initialArena_rooted root globals).inside_one (outline source root)).1
  · exact fun a kind node p h _ => h.openScope kind node p
  · exact fun a i binder name node h _ => h.modify _ fun _ h => Bindings.nodup_names_alter h _ _ _

theorem analyze_bound : (analyze source root globals).arena.Bound :=
  (walk_bound source root globals).settleAll _

theorem analyze_distinct : (analyze source root globals).arena.Distinct :=
  (walk_distinct source root globals).settleAll _

theorem target?_analyze (use : Reference) :
    (analyze source root globals).arena.target? use = (walk source root globals).1.target? use :=
  Arena.target?_settleAll (walk_bound source root globals) _ use

theorem entered_analyze :
    (analyze source root globals).arena.entered.Perm ((walk source root globals).2.map fun use =>
      { use with target := (analyze source root globals).arena.target? use }) := by
  have hsize := (walk_rooted source root globals).two_le_size
  have hperm := Arena.entered_settleAll (walk_bound source root globals) (by omega) fun _ huse =>
    (inside_of_mem_walk source root globals huse).2
  rw [(walk_unused source root globals).entered (walk_distinct source root globals),
    List.append_nil] at hperm
  simp only [target?_analyze]
  exact hperm

open Classical in
theorem references_analyze {i : Nat} {name : String} {v : Variable}
    (hv : (analyze source root globals).arena.lookup? name i = some v) :
    v.references = ((walk source root globals).2.filter fun use =>
      (analyze source root globals).arena.resolve (some use.scope) use.name = some v).map
        fun use => { use with target := some i } := by
  have hiff := Arena.resolve_eq_some_iff (analyze_bound source root globals) hv
  have hsettled := Arena.lookup?_settleAll (walk_bound source root globals)
    (walk source root globals).2 name i
  rw [← arena_analyze, hv] at hsettled
  obtain ⟨old, hold, hv'⟩ := Option.map_eq_some_iff.mp hsettled.symm
  have hrefs := congrArg Variable.references hv'
  simp only [(walk_unused source root globals).references name i old hold, List.nil_append] at hrefs
  simp only [← hrefs, hiff, target?_analyze]

theorem through_analyze {i : Nat} {s : Scope}
    (hs : (analyze source root globals).arena.get? i = some s) :
    s.through = (walk source root globals).2.filter fun use =>
      i = 0 ∧ (analyze source root globals).arena.target? use = none := by
  have hsettled := Arena.through_settleAll (walk_bound source root globals)
    (walk source root globals).2 i
  rw [← arena_analyze, hs] at hsettled
  obtain ⟨old, hold, hthrough⟩ := Option.map_eq_some_iff.mp hsettled.symm
  rw [(walk_unused source root globals).through i old hold, List.nil_append] at hthrough
  simp only [target?_analyze]
  exact hthrough.symm

/-- **Every use of a file has its one place in the finished arena**: with the variable that the nearest
binding of its name gives, wherever that is declared, or, if no scope on its way up binds the name, among
the uses that are left over. -/
theorem analyze_partitions_uses :
    (analyze source root globals).arena.Partitions source (walk source root globals).2 where
  once := entered_analyze source root globals
  denoted := by
    intro use huse v hres
    obtain ⟨j, -, hlookup⟩ := Arena.exists_lookup?_of_resolve hres
    obtain ⟨hname, rfl⟩ := (analyze_bound source root globals).placed _ _ _ hlookup
    obtain ⟨s, hs, hget⟩ := Option.bind_eq_some_iff.mp hlookup
    rw [hname]
    exact ⟨(site_of_mem_walk huse).2, s, hs, mem_of_lookup hget⟩
  placed := by
    intro i s hs
    refine ⟨analyze_distinct source root globals i s hs, fun name v hmem => ?_⟩
    have hlookup := (analyze_distinct source root globals).lookup?_of_mem hs hmem
    exact (analyze_bound source root globals).placed name i v hlookup
  references := by
    intro i s name v hs hmem
    exact references_analyze source root globals
      ((analyze_distinct source root globals).lookup?_of_mem hs hmem)
  leftOver := by
    intro s hs
    have hthrough := through_analyze source root globals hs
    refine ⟨?_, ?_⟩
    · rw [hthrough]
      refine List.filter_congr fun use _ => ?_
      rw [decide_eq_decide, Arena.target?_eq_none_iff_unbound]
      exact and_iff_right rfl
    · intro use huse
      rw [hthrough] at huse
      exact (inside_of_mem_walk source root globals (List.mem_filter.mp huse).1).2
  inner := by
    intro i s hs hi
    rw [through_analyze source root globals hs]
    simp [hi]

end ScopeTree

end LoggerLint
