import LoggerLint.Proofs.Scope.Formed

/-!
# Settled uses

Settling enters every use with the variable that it denotes, or with the uses that nothing binds. It
changes no scope and no binding, so all uses are settled as the finished arena tells them
(`target?_settle`), and the order in which they were met is kept: `lookup?_settleAll` gives the uses of
every variable and `through_settleAll` those that are left over.

A name is `Free` in the file, seen from a scope, when no scope up to the module's binds it. A free name
denotes what the outermost scope binds it to, which is an ambient global or nothing; any other name
denotes a variable inside the file.
-/

namespace LoggerLint.Arena

/-! ## What a use denotes -/

/-- The scope of the variable that a use denotes. -/
def target? (a : Arena) (use : Reference) : Option Nat :=
  (a.resolve (some use.scope) use.name).map (·.scope)

/-- The nearest binding of a name is the binding of some scope on the chain. -/
theorem exists_lookup?_of_resolve {a : Arena} {start : Option Nat} {name : String} {v : Variable}
    (h : a.resolve start name = some v) : ∃ i ∈ a.chain start, a.lookup? name i = some v :=
  List.exists_of_findSome?_eq_some h

theorem target?_eq_findSome? (a : Arena) (use : Reference) :
    a.target? use =
      (a.chain (some use.scope)).findSome? fun i => (a.lookup? use.name i).map (·.scope) := by
  rw [target?, resolve, List.map_findSome?]
  rfl

/-- Arenas of one shape whose scopes bind the same names denote the same. -/
theorem target?_congr {a b : Arena} (hskel : a.skeleton = b.skeleton)
    (hlookup : ∀ name i, (a.lookup? name i).map (·.scope) = (b.lookup? name i).map (·.scope))
    (use : Reference) : a.target? use = b.target? use := by
  simp only [target?_eq_findSome?, chain_of_skeleton hskel, hlookup]

/-! ## One use -/

theorem skeleton_settle (a : Arena) (use : Reference) : (a.settle use).skeleton = a.skeleton := by
  rw [settle]
  split <;> exact skeleton_modify a _ fun _ => rfl

/-- A use that denotes a variable is entered there, behind the uses it has; no other variable
changes. -/
theorem lookup?_settle {a : Arena} (hbound : a.Bound) (use : Reference) (name : String) (i : Nat) :
    (a.settle use).lookup? name i =
      (a.lookup? name i).map fun v =>
        { v with
          references := v.references ++
            if use.name = name ∧ a.target? use = some i then
              [{ use with target := some i }] else [] } := by
  rcases hres : a.resolve (some use.scope) use.name with _ | found
  · have htarget : a.target? use = none := by simp [target?, hres]
    have hsame : (a.settle use).lookup? name i = a.lookup? name i := by
      simp only [settle, hres, lookup?]
      by_cases hi : 0 = i
      · subst hi
        rw [get?_modify_self]
        rcases a.get? 0 with _ | s <;> rfl
      · rw [get?_modify_ne _ _ hi]
    simp [hsame, htarget]
  · obtain ⟨j, -, hfound⟩ := exists_lookup?_of_resolve hres
    obtain ⟨-, rfl⟩ := hbound.placed _ _ _ hfound
    have htarget : a.target? use = some found.scope := by simp [target?, hres]
    rw [htarget]
    simp only [settle, hres]
    by_cases hi : found.scope = i
    · subst hi
      obtain ⟨s, hs, hget⟩ := Option.bind_eq_some_iff.mp hfound
      simp only [lookup?, get?_modify_self, hs, Option.map_some, Option.bind_some]
      by_cases hname : use.name = name
      · subst hname
        simp [Bindings.get?_alter_self, hget]
      · simp [Bindings.get?_alter_ne _ _ _ (Ne.symm hname), hname]
    · have hne : ¬ (use.name = name ∧ some found.scope = some i) := by
        rintro ⟨-, h⟩
        exact hi (Option.some.inj h)
      simp only [lookup?, get?_modify_ne _ _ hi, if_neg hne]
      simp

theorem through_settle (a : Arena) (use : Reference) (i : Nat) :
    ((a.settle use).get? i).map (·.through) =
      (a.get? i).map fun s =>
        s.through ++ if i = 0 ∧ a.target? use = none then [use] else [] := by
  rcases hres : a.resolve (some use.scope) use.name with _ | found
  · have htarget : a.target? use = none := by simp [target?, hres]
    simp only [settle, hres]
    by_cases hi : 0 = i
    · subst hi
      rw [get?_modify_self]
      rcases a.get? 0 with _ | s <;> simp [htarget]
    · rw [get?_modify_ne _ _ hi]
      simp [Ne.symm hi]
  · have htarget : a.target? use ≠ none := by simp [target?, hres]
    simp only [settle, hres]
    by_cases hi : found.scope = i
    · subst hi
      rw [get?_modify_self]
      rcases a.get? found.scope with _ | s <;> simp [htarget]
    · rw [get?_modify_ne _ _ hi]
      simp [htarget]

theorem Bound.settle {a : Arena} (hbound : a.Bound) (use : Reference) : (a.settle use).Bound := by
  have hold : ∀ {name i v}, (a.settle use).lookup? name i = some v →
      ∃ old, a.lookup? name i = some old ∧ v.name = old.name ∧ v.scope = old.scope ∧
        v.definitions = old.definitions := by
    intro name i v hv
    rw [lookup?_settle hbound] at hv
    obtain ⟨old, hold, rfl⟩ := Option.map_eq_some_iff.mp hv
    exact ⟨old, hold, rfl, rfl, rfl⟩
  refine ⟨?_, ?_, ?_⟩
  · intro name i v hv
    obtain ⟨old, hlookup, hname, hscope, -⟩ := hold hv
    rw [hname, hscope]
    exact hbound.placed name i old hlookup
  · intro name v hv
    obtain ⟨old, hlookup, -, -, hdefs⟩ := hold hv
    rw [hdefs]
    exact hbound.ambient name old hlookup
  · intro name i v hv hi
    obtain ⟨old, hlookup, -, -, hdefs⟩ := hold hv
    rw [hdefs]
    exact hbound.declared name i old hlookup hi

/-- **Settling one use does not change what another denotes.** -/
theorem target?_settle {a : Arena} (hbound : a.Bound) (use other : Reference) :
    (a.settle use).target? other = a.target? other := by
  refine target?_congr (skeleton_settle a use) (fun name i => ?_) other
  rw [lookup?_settle hbound]
  simp [Option.map_map, Function.comp_def]

/-! ## All uses -/

theorem skeleton_settleAll (a : Arena) (uses : List Reference) :
    (uses.foldl settle a).skeleton = a.skeleton := by
  induction uses generalizing a with
  | nil => rfl
  | cons use rest ih => rw [List.foldl_cons, ih, skeleton_settle]

/-- **The uses of a variable**: those that denote it, in the order in which they were met. -/
theorem lookup?_settleAll {a : Arena} (hbound : a.Bound) (uses : List Reference) (name : String)
    (i : Nat) :
    (uses.foldl settle a).lookup? name i =
      (a.lookup? name i).map fun v =>
        { v with
          references := v.references ++
            (uses.filter fun use => use.name = name ∧ a.target? use = some i).map
              fun use => { use with target := some i } } := by
  induction uses generalizing a with
  | nil => simp
  | cons use rest ih =>
    rw [List.foldl_cons, ih (hbound.settle use), lookup?_settle hbound]
    simp only [target?_settle hbound, Option.map_map, Function.comp_def]
    by_cases h : use.name = name ∧ a.target? use = some i
    · simp [h, List.append_assoc]
    · simp [h]

/-- **The uses that are left over**: those that denote nothing, in the order in which they were met. -/
theorem through_settleAll {a : Arena} (hbound : a.Bound) (uses : List Reference) (i : Nat) :
    ((uses.foldl settle a).get? i).map (·.through) =
      (a.get? i).map fun s =>
        s.through ++ uses.filter fun use => i = 0 ∧ a.target? use = none := by
  induction uses generalizing a with
  | nil => simp
  | cons use rest ih =>
    have hone := through_settle a use i
    rw [List.foldl_cons, ih (hbound.settle use)]
    simp only [target?_settle hbound]
    rcases hs : a.get? i with _ | s
    · have hnone : (a.settle use).get? i = none := by simpa [hs] using hone
      simp [hnone]
    · rw [hs] at hone
      obtain ⟨t, ht, hthrough⟩ := Option.map_eq_some_iff.mp hone
      rw [ht]
      by_cases h : i = 0 ∧ a.target? use = none
      · simp [hthrough, h]
      · simp [hthrough, h]

theorem Bound.settleAll {a : Arena} (hbound : a.Bound) (uses : List Reference) :
    (uses.foldl Arena.settle a).Bound := by
  induction uses generalizing a with
  | nil => exact hbound
  | cons use rest ih => exact ih (hbound.settle use)

/-- What the scopes bind is not changed by settling, but for the uses. -/
theorem lookup?_settleAll_eq_none_iff {a : Arena} (hbound : a.Bound) (uses : List Reference)
    (name : String) (i : Nat) :
    (uses.foldl settle a).lookup? name i = none ↔ a.lookup? name i = none := by
  rw [lookup?_settleAll hbound, Option.map_eq_none_iff]

/-! ## Names that are free in the file -/

/-- No scope from the one at `i` up to the module's binds the name. -/
def Free (a : Arena) (name : String) (i : Nat) : Prop :=
  ∀ j ∈ a.chain (some i), j ≠ 0 → a.lookup? name j = none

instance (a : Arena) (name : String) (i : Nat) : Decidable (a.Free name i) :=
  inferInstanceAs (Decidable (∀ j ∈ a.chain (some i), j ≠ 0 → a.lookup? name j = none))

/-- Arenas of one shape leave the same names free if their inner scopes bind the same names. -/
theorem free_congr {a b : Arena} (hskel : a.skeleton = b.skeleton) {name : String}
    (hlookup : ∀ i, i ≠ 0 → (a.lookup? name i = none ↔ b.lookup? name i = none)) (i : Nat) :
    a.Free name i ↔ b.Free name i := by
  rw [Free, Free, chain_of_skeleton hskel]
  exact ⟨fun h j hj hne => (hlookup j hne).mp (h j hj hne),
    fun h j hj hne => (hlookup j hne).mpr (h j hj hne)⟩

/-- A free name denotes what the outermost scope binds it to. -/
theorem resolve_of_free {a : Arena} (hroot : a.Rooted) {name : String} {i : Nat} (hi : a.Inside i)
    (hfree : a.Free name i) : a.resolve (some i) name = a.lookup? name 0 := by
  obtain ⟨inner, hinner, hinside⟩ := hroot.chain_eq_append hi
  rw [Free, hinner] at hfree
  have hnone : inner.findSome? (a.lookup? name) = none := by
    refine List.findSome?_eq_none_iff.mpr fun j hj => ?_
    exact hfree j (List.mem_append_left _ hj) (hinside j hj).1
  have hone : a.lookup? name 1 = none := hfree 1 (by simp) Nat.one_ne_zero
  simp [resolve, hinner, List.findSome?_append, hnone, hone]

/-- A name that is not free denotes a variable inside the file. -/
theorem target?_of_not_free {a : Arena} (hroot : a.Rooted) (hbound : a.Bound) {use : Reference}
    (hi : a.Inside use.scope) (hfree : ¬ a.Free use.name use.scope) :
    ∃ j, j ≠ 0 ∧ a.target? use = some j := by
  obtain ⟨inner, hinner, hinside⟩ := hroot.chain_eq_append hi
  -- the first binding on the chain comes before the outermost scope, since an inner one exists
  have hinner' : a.chain (some use.scope) = (inner ++ [1]) ++ [0] := by simp [hinner]
  have hsome : ((inner ++ [1]).findSome? (a.lookup? use.name)).isSome := by
    rw [Option.isSome_iff_ne_none]
    intro hnone
    refine hfree fun j hj hne => ?_
    rw [hinner', List.mem_append] at hj
    rcases hj with hj | hj
    · exact List.findSome?_eq_none_iff.mp hnone j hj
    · exact absurd (List.mem_singleton.mp hj) hne
  obtain ⟨v, hv⟩ := Option.isSome_iff_exists.mp hsome
  obtain ⟨j, hj, hlookup⟩ := List.exists_of_findSome?_eq_some hv
  have hplaced := (hbound.placed _ _ _ hlookup).2
  refine ⟨j, ?_, ?_⟩
  · rcases List.mem_append.mp hj with hj | hj
    · exact (hinside j hj).1
    · rw [List.mem_singleton.mp hj]
      exact Nat.one_ne_zero
  · rw [target?, resolve, hinner', List.findSome?_append, hv]
    exact congrArg some hplaced

/-- **A use denotes an ambient global** exactly when its name is free and ambient. -/
theorem target?_eq_zero_iff {a : Arena} (hroot : a.Rooted) (hbound : a.Bound) {use : Reference}
    (hi : a.Inside use.scope) :
    a.target? use = some 0 ↔ a.Free use.name use.scope ∧ (a.lookup? use.name 0).isSome := by
  by_cases hfree : a.Free use.name use.scope
  · rw [target?, resolve_of_free hroot hi hfree]
    rcases hv : a.lookup? use.name 0 with _ | v
    · simp
    · simp [hfree, (hbound.placed _ _ _ hv).2]
  · obtain ⟨j, hne, hj⟩ := target?_of_not_free hroot hbound hi hfree
    simp [hj, hne, hfree]

/-- **A use denotes nothing** exactly when its name is free and not ambient. -/
theorem target?_eq_none_iff {a : Arena} (hroot : a.Rooted) (hbound : a.Bound) {use : Reference}
    (hi : a.Inside use.scope) :
    a.target? use = none ↔ a.Free use.name use.scope ∧ a.lookup? use.name 0 = none := by
  by_cases hfree : a.Free use.name use.scope
  · rw [target?, resolve_of_free hroot hi hfree]
    simp [hfree]
  · obtain ⟨j, -, hj⟩ := target?_of_not_free hroot hbound hi hfree
    simp [hj, hfree]

end LoggerLint.Arena
