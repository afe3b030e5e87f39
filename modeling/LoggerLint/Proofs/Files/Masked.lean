import LoggerLint.Proofs.Files.Tree

/-!
# Trees without some contents

`mask` takes the content out of every file whose name is hidden, and leaves the rest of a tree as it is.
What a function of trees makes of a masked tree it makes without those contents; two trees with one mask
are `Alike` to it. Writing a hidden file leaves the mask alone (`mask_put`), and where a path leads is told
by the mask (`resolve?_mask`).
-/

namespace LoggerLint.FileTree

mutual

/-- What stands under a name, without the content of hidden files. -/
def mask (hidden : String → Bool) (name : String) : FileTree → FileTree
  | .file content => .file (if hidden name then [] else content)
  | .link target => .link target
  | .directory entries => .directory (maskAll hidden entries)

/-- The entries of a directory, without the content of hidden files. -/
def maskAll (hidden : String → Bool) : List (String × FileTree) → List (String × FileTree)
  | [] => []
  | entry :: rest => maskEntry hidden entry :: maskAll hidden rest

/-- One entry of a directory, without the content of hidden files. -/
def maskEntry (hidden : String → Bool) : String × FileTree → String × FileTree
  | (name, tree) => (name, mask hidden name tree)

end

/-- The trees differ in the content of hidden files only. -/
def Alike (hidden : String → Bool) (a b : FileTree) : Prop :=
  a.mask hidden "" = b.mask hidden ""

variable {hidden : String → Bool}

/-! ## What a mask leaves -/

theorem maskAll_eq_map (hidden : String → Bool) (entries : List (String × FileTree)) :
    maskAll hidden entries = entries.map fun entry => (entry.1, mask hidden entry.1 entry.2) := by
  induction entries with
  | nil => rfl
  | cons entry rest ih => rw [maskAll, ih, maskEntry, List.map_cons]

theorem lookup_maskAll (hidden : String → Bool) (entries : List (String × FileTree)) (name : String) :
    (maskAll hidden entries).lookup name = (entries.lookup name).map (mask hidden name) := by
  rw [maskAll_eq_map]
  exact lookup_map_values (mask hidden) entries

theorem entries_mask (hidden : String → Bool) (name : String) (tree : FileTree) :
    (tree.mask hidden name).entries = maskAll hidden tree.entries := by
  cases tree with
  | file content => rfl
  | link target => rfl
  | directory entries => rfl

theorem mask_eq_file {name : String} {tree : FileTree} {content : Bytes}
    (h : tree.mask hidden name = .file content) :
    ∃ old, tree = .file old ∧ (hidden name = false → old = content) := by
  cases tree with
  | file old =>
    refine ⟨old, rfl, fun hname => ?_⟩
    rw [mask, hname] at h
    exact file.inj h
  | link target => cases h
  | directory inner => cases h

theorem mask_eq_link {name : String} {tree : FileTree} {target : Path} :
    tree.mask hidden name = .link target ↔ tree = .link target := by
  cases tree with
  | file content => exact ⟨nofun, nofun⟩
  | link other => exact Iff.rfl
  | directory inner => exact ⟨nofun, nofun⟩

/-- What stands at the end of names, masked under the last of them. -/
theorem get?_mask (hidden : String → Bool) (name : String) (tree : FileTree) (names : List String) :
    (tree.mask hidden name).get? names =
      (tree.get? names).map (mask hidden (names.getLast?.getD name)) := by
  induction names generalizing tree name with
  | nil => rfl
  | cons first rest ih =>
    rw [get?, get?, entries_mask, lookup_maskAll, List.getLast?_cons]
    rcases tree.entries.lookup first with _ | inner
    · rfl
    · exact ih first inner

theorem get?_mask_eq_link_iff {name : String} {tree : FileTree} {names : List String} {target : Path} :
    (tree.mask hidden name).get? names = some (.link target) ↔ tree.get? names = some (.link target) := by
  rw [get?_mask]
  rcases tree.get? names with _ | inner
  · simp
  · simp [mask_eq_link]

theorem any_isDirectory_mask (hidden : String → Bool) (name : String) (tree : FileTree)
    (names : List String) :
    ((tree.mask hidden name).get? names).any isDirectory = (tree.get? names).any isDirectory := by
  rw [get?_mask]
  rcases tree.get? names with _ | (content | target | entries) <;> rfl

/-! ## Where paths lead -/

theorem walk_mask (hidden : String → Bool) (name : String) (tree : FileTree) (links : Nat) (here : Place)
    (todo : List String) : (tree.mask hidden name).walk links here todo = tree.walk links here todo := by
  fun_induction walk tree links here todo with
  | case1 links here => rw [walk]
  | case2 links here todo stands ih =>
    rw [walk, if_pos rfl, any_isDirectory_mask]
    exact ih
  | case3 here next rest hback target hlink =>
    rw [walk, if_neg hback, get?_mask_eq_link_iff.mpr hlink]
  | case4 here next rest hback target hlink links start ih =>
    rw [walk, if_neg hback, get?_mask_eq_link_iff.mpr hlink]
    exact ih
  | case5 links here next rest hback hlink ih =>
    rw [walk, if_neg hback]
    split
    · rename_i target htarget
      exact absurd (get?_mask_eq_link_iff.mp htarget) (hlink target)
    · exact ih

/-- **Where a path leads does not depend on what files hold.** -/
theorem resolve?_mask (hidden : String → Bool) (name : String) (tree : FileTree) (path : Path) :
    (tree.mask hidden name).resolve? path = tree.resolve? path :=
  walk_mask hidden name tree maxLinks ⟨[], true⟩ path.parts

/-- **Writing a hidden file leaves the mask alone.** -/
theorem mask_put {name : String} {tree : FileTree} {names : List String} {old : Bytes}
    (hproper : tree.Proper) (hold : tree.get? names = some (.file old))
    (hname : hidden (names.getLast?.getD name) = true) (new : Bytes) :
    (put (.file new) names tree).mask hidden name = tree.mask hidden name := by
  induction names generalizing tree name with
  | nil =>
    obtain rfl := Option.some.inj hold
    rw [List.getLast?_nil, Option.getD_none] at hname
    simp [put, mask, hname]
  | cons first rest ih =>
    rw [get?] at hold
    rw [List.getLast?_cons, Option.getD_some] at hname
    rcases hinner : tree.entries.lookup first with _ | inner
    · rw [hinner] at hold
      cases hold
    · rw [hinner] at hold
      cases tree with
      | file content => cases hinner
      | link target => cases hinner
      | directory entries =>
        have hlookup : entries.lookup first = some inner := hinner
        rw [put_cons_of_lookup hlookup, mask, mask, maskAll_eq_map, maskAll_eq_map, List.map_map]
        refine congrArg directory (List.map_congr_left fun entry hentry => ?_)
        by_cases hfirst : entry.1 = first
        · -- the names are distinct, so this is the entry that is written
          obtain ⟨key, value⟩ := entry
          obtain rfl : key = first := hfirst
          obtain ⟨hget, hvalue, -⟩ := hproper.of_mem hentry
          rw [get?_singleton] at hget
          obtain rfl : inner = value := Option.some.inj (hinner.symm.trans hget)
          simp [ih hvalue hold hname]
        · simp [hfirst]

/-! ## Trees that are alike -/

namespace Alike

variable {a b : FileTree}

theorem mask_eq (h : Alike hidden a b) : a.mask hidden "" = b.mask hidden "" :=
  h

theorem trans {c : FileTree} (h : Alike hidden a b) (h' : Alike hidden b c) : Alike hidden a c :=
  Eq.trans h h'

theorem get? (h : Alike hidden a b) (names : List String) :
    (a.get? names).map (mask hidden (names.getLast?.getD "")) =
      (b.get? names).map (mask hidden (names.getLast?.getD "")) := by
  rw [← get?_mask, ← get?_mask, h.mask_eq]

theorem resolve? (h : Alike hidden a b) (path : Path) : a.resolve? path = b.resolve? path := by
  rw [← resolve?_mask hidden "" a, ← resolve?_mask hidden "" b, h.mask_eq]

theorem exists_file (h : Alike hidden a b) {names : List String} {content : Bytes}
    (ha : a.get? names = some (.file content)) : ∃ other, b.get? names = some (.file other) := by
  have hmask := h.get? names
  rw [ha, Option.map_some, mask] at hmask
  obtain ⟨tree, htree, hfile⟩ := Option.map_eq_some_iff.mp hmask.symm
  obtain ⟨other, rfl, -⟩ := mask_eq_file hfile
  exact ⟨other, htree⟩

end Alike

end LoggerLint.FileTree
