import LoggerLint.Proofs.Scope.Settled

/-!
# Ambient globals

A file is read without a look at the ambient globals: whatever the outermost scope binds, the same
scopes open, the same names are declared in them, and the same uses are met. `walk_eq_withAmbient` says
so for a whole file: reading with ambient globals is reading without any and putting them into the
outermost scope afterwards. What a name means inside the file is then the same for any two lists of
globals, and at the outermost scope only membership counts (`lookup?_walk_zero`), not order or repeats.
-/

namespace LoggerLint

namespace Arena

/-! ## Other bindings in the outermost scope -/

/-- The same scopes, with other bindings in the outermost one. -/
def withAmbient (a : Arena) (bindings : Bindings) : Arena :=
  a.modify 0 fun s => { s with bindings }

theorem skeleton_withAmbient (a : Arena) (bindings : Bindings) :
    (a.withAmbient bindings).skeleton = a.skeleton :=
  skeleton_modify a 0 fun _ => rfl

@[simp] theorem size_withAmbient (a : Arena) (bindings : Bindings) :
    (a.withAmbient bindings).size = a.size :=
  size_modify a 0 _

theorem lookup?_withAmbient_ne (a : Arena) (bindings : Bindings) (name : String) {i : Nat}
    (hi : i ≠ 0) : (a.withAmbient bindings).lookup? name i = a.lookup? name i := by
  rw [lookup?, withAmbient, get?_modify_ne _ _ (Ne.symm hi), ← lookup?]

theorem lookup?_withAmbient_zero {a : Arena} (bindings : Bindings) (name : String)
    (hsize : 0 < a.size) : (a.withAmbient bindings).lookup? name 0 = bindings.get? name := by
  obtain ⟨s, hs⟩ := exists_get?_of_lt hsize
  simp [lookup?, withAmbient, get?_modify_self, hs]

theorem varScope_withAmbient (a : Arena) (bindings : Bindings) (i : Nat) :
    (a.withAmbient bindings).varScope i = a.varScope i :=
  varScope_of_skeleton (skeleton_withAmbient a bindings) i

theorem declare_withAmbient (a : Arena) (bindings : Bindings) {i : Nat} (hi : i ≠ 0) (name : String)
    (definition : Definition) :
    (a.withAmbient bindings).declare i name definition =
      (a.declare i name definition).withAmbient bindings := by
  refine congrArg Arena.mk (List.ext_getElem? fun j => ?_)
  simp only [withAmbient, declare, modify, List.getElem?_modify]
  rcases a.scopes[j]? with _ | s
  · rfl
  · by_cases hj : 0 = j
    · subst hj
      simp [hi]
    · simp [hj]

theorem openScope_withAmbient {a : Arena} (bindings : Bindings) (hsize : 0 < a.size)
    (kind : ScopeKind) (node : Node) (p : Nat) :
    (a.withAmbient bindings).openScope kind node (some p) =
      (a.openScope kind node (some p)).withAmbient bindings := by
  obtain ⟨scopes⟩ := a
  cases scopes with
  | nil => exact absurd hsize (Nat.lt_irrefl 0)
  | cons first rest =>
    cases p with
    | zero => simp [withAmbient, openScope, modify, size]
    | succ p => simp [withAmbient, openScope, modify, size]

end Arena

/-! ## Reading a file -/

namespace Item

open Arena

theorem enter_withAmbient {a : Arena} (bindings : Bindings) (hroot : a.Rooted) {i : Nat}
    (hi : a.Inside i) (binder : Binder) (name : String) (node : Node) :
    enter (a.withAmbient bindings) i binder name node =
      (enter a i binder name node).withAmbient bindings := by
  simp only [enter, varScope_withAmbient]
  exact declare_withAmbient a bindings (inside_enter hroot hi binder).1 name _

theorem stable_withAmbient (bindings : Bindings) : Stable fun a b => b = a.withAmbient bindings := by
  constructor
  · rintro a _ rfl
    exact size_withAmbient a bindings
  · rintro a _ kind node p rfl - hp
    exact openScope_withAmbient bindings (Nat.lt_of_le_of_lt (Nat.zero_le p) hp.2) kind node p
  · rintro a _ i binder name node rfl hroot hi
    exact enter_withAmbient bindings hroot hi binder name node

/-- **Items are played alike whatever the outermost scope binds.** -/
theorem playAll_withAmbient (bindings : Bindings) (a : Arena) (i : Nat) (hroot : a.Rooted)
    (hi : a.Inside i) (items : List Item) :
    playAll (a.withAmbient bindings) i items =
      ((playAll a i items).1.withAmbient bindings, (playAll a i items).2) := by
  obtain ⟨harena, huses⟩ := playAll_related (stable_withAmbient bindings) rfl hroot hi items
  exact Prod.ext harena huses

end Item

namespace ScopeTree

variable (source : Bytes) (root : Node) (globals : List String)

/-- **Reading a file with ambient globals** is reading it without any, with the globals in the outermost
scope of the arena it leaves. -/
theorem walk_eq_withAmbient :
    walk source root globals =
      ((walk source root []).1.withAmbient (ambientBindings globals), (walk source root []).2) := by
  have hinitial : initialArena root globals =
      (initialArena root []).withAmbient (ambientBindings globals) := by
    rw [initialArena_eq, initialArena_eq]
    rfl
  have hroot := initialArena_rooted root []
  rw [walk, hinitial, Item.playAll_withAmbient _ _ 1 hroot hroot.inside_one]
  rfl

theorem uses_walk (globals' : List String) :
    (walk source root globals).2 = (walk source root globals').2 := by
  rw [walk_eq_withAmbient source root globals, walk_eq_withAmbient source root globals']

theorem skeleton_walk (globals' : List String) :
    (walk source root globals).1.skeleton = (walk source root globals').1.skeleton := by
  rw [walk_eq_withAmbient source root globals, walk_eq_withAmbient source root globals']
  simp only [Arena.skeleton_withAmbient]

theorem lookup?_walk_ne (globals' : List String) (name : String) {i : Nat} (hi : i ≠ 0) :
    (walk source root globals).1.lookup? name i = (walk source root globals').1.lookup? name i := by
  rw [walk_eq_withAmbient source root globals, walk_eq_withAmbient source root globals']
  simp only [Arena.lookup?_withAmbient_ne _ _ name hi]

/-- The outermost scope binds the ambient globals, however they are listed, and nothing else. -/
theorem lookup?_walk_zero (name : String) :
    (walk source root globals).1.lookup? name 0 =
      if name ∈ globals then some { name, scope := 0 } else none := by
  have hsize := (walk_rooted source root []).two_le_size
  rw [walk_eq_withAmbient source root globals, ← get?_ambientBindings]
  exact Arena.lookup?_withAmbient_zero _ name (by omega)

/-- Which names are free in the file does not depend on the ambient globals. -/
theorem free_walk (globals' : List String) (name : String) (i : Nat) :
    (walk source root globals).1.Free name i ↔ (walk source root globals').1.Free name i :=
  Arena.free_congr (skeleton_walk source root globals globals')
    (fun j hj => by rw [lookup?_walk_ne source root globals globals' name hj]) i

end ScopeTree

end LoggerLint
