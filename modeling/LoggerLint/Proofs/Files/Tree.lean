import LoggerLint.Files.Tree
import LoggerLint.Proofs.Data.Entries

/-!
# What stands where

How `put` changes what stands at the end of names, and when a path leads to just the names it is written
with. A way through a tree is `Direct` when no step of it goes back or through a link. Where a path leads
is such a way (`direct_of_resolve?`), and a direct way leads to itself (`resolve?_of_direct`), so resolving
a path twice is resolving it once.

A tree is `Proper` when it is one that a file system can hold: the names in a directory are distinct, and
none of them is the way back.
-/

namespace LoggerLint.FileTree

/-! ## Names -/

theorem get?_append (tree : FileTree) (names more : List String) :
    tree.get? (names ++ more) = (tree.get? names).bind (·.get? more) := by
  induction names generalizing tree with
  | nil => rfl
  | cons name rest ih =>
    rw [List.cons_append, get?, get?]
    rcases tree.entries.lookup name with _ | inner
    · rfl
    · exact ih inner

theorem get?_singleton (tree : FileTree) (name : String) :
    tree.get? [name] = tree.entries.lookup name := by
  rw [get?]
  rcases tree.entries.lookup name with _ | inner <;> rfl

theorem get?_cons (tree : FileTree) (name : String) (rest : List String) :
    tree.get? (name :: rest) = (tree.entries.lookup name).bind (·.get? rest) := by
  rw [← List.singleton_append, get?_append, get?_singleton]

/-- What holds of a directory and of all directories in its entries holds of all directories in it. -/
theorem forall_directories {P : List (String × FileTree) → Prop} {entries : List (String × FileTree)}
    (hself : P entries) (hentries : ∀ entry ∈ entries, ∀ names inner,
      entry.2.get? names = some (.directory inner) → P inner) :
    ∀ names inner, (directory entries).get? names = some (.directory inner) → P inner := by
  intro names inner h
  cases names with
  | nil =>
    obtain rfl := directory.inj (Option.some.inj h)
    exact hself
  | cons name rest =>
    rw [get?_cons] at h
    obtain ⟨entry, hlookup, hrest⟩ := Option.bind_eq_some_iff.mp h
    exact hentries _ (mem_of_lookup hlookup) rest inner hrest

/-! ## Writing -/

/-- A name that is bound keeps its place and gets the value. -/
theorem assign_of_bound {name : String} {entries : List (String × FileTree)}
    (h : (entries.lookup name).isSome) (value : FileTree) :
    assign name value entries =
      entries.map fun entry => (entry.1, if entry.1 = name then value else entry.2) := by
  rw [assign, if_pos h]
  refine List.map_congr_left fun entry _ => ?_
  by_cases hname : entry.1 = name
  · rw [if_pos hname, if_pos hname, hname]
  · rw [if_neg hname, if_neg hname]

theorem lookup_assign (name other : String) (value : FileTree) (entries : List (String × FileTree)) :
    (assign name value entries).lookup other =
      if other = name then some value else entries.lookup other := by
  rcases hbound : entries.lookup name with _ | old
  · rw [assign, hbound, if_neg (by simp), List.lookup_append]
    by_cases hother : other = name
    · subst hother
      simp [hbound]
    · simp [hother, List.lookup_cons, beq_false_of_ne hother]
  · rw [assign_of_bound (by simp [hbound]), lookup_map_values fun key inner =>
      if key = name then value else inner]
    by_cases hother : other = name
    · simp [hother, hbound]
    · simp [hother]

/-- Below a name that is bound, `put` goes on where the name leads. -/
theorem put_cons_of_lookup {first : String} {entries : List (String × FileTree)} {inner : FileTree}
    (h : entries.lookup first = some inner) (value : FileTree) (rest : List String) :
    put value (first :: rest) (.directory entries) =
      .directory (entries.map fun entry =>
        (entry.1, if entry.1 = first then put value rest inner else entry.2)) := by
  have hself : (directory entries).entries = entries := rfl
  rw [put, hself, h, Option.getD_some, assign_of_bound (by simp [h])]

/-- **Writing a file leaves every other file as it is.** -/
theorem get?_put_of_ne {tree : FileTree} {names other : List String} {old content : Bytes}
    (hold : tree.get? names = some (.file old)) (hother : tree.get? other = some (.file content))
    (hne : other ≠ names) (value : FileTree) :
    (put value names tree).get? other = some (.file content) := by
  induction names generalizing tree other with
  | nil =>
    obtain rfl := Option.some.inj hold
    cases other with
    | nil => exact absurd rfl hne
    | cons name rest => cases hother
  | cons name rest ih =>
    cases other with
    | nil =>
      obtain rfl := Option.some.inj hother
      cases hold
    | cons first others =>
      rw [get?] at hold hother
      rw [put, get?, entries, lookup_assign]
      by_cases hfirst : first = name
      · subst hfirst
        rw [if_pos rfl]
        rcases hinner : tree.entries.lookup first with _ | inner
        · rw [hinner] at hold
          cases hold
        · rw [hinner] at hold hother
          exact ih hold hother fun h => hne (congrArg (first :: ·) h)
      · rw [if_neg hfirst]
        exact hother

/-! ## Trees that a file system can hold -/

/-- The names in a directory are distinct, and none of them is the way back. -/
def Proper (tree : FileTree) : Prop :=
  ∀ names entries, tree.get? names = some (.directory entries) →
    (entries.map Prod.fst).Nodup ∧ ".." ∉ entries.map Prod.fst

theorem Proper.of_get? {tree inner : FileTree} (hproper : tree.Proper) {names : List String}
    (h : tree.get? names = some inner) : inner.Proper := by
  intro more entries hmore
  refine hproper (names ++ more) entries ?_
  rw [get?_append, h]
  exact hmore

/-- An entry of a proper directory is found under its name, and is proper itself. -/
theorem Proper.of_mem {entries : List (String × FileTree)} (hproper : (directory entries).Proper)
    {name : String} {inner : FileTree} (h : (name, inner) ∈ entries) :
    (directory entries).get? [name] = some inner ∧ inner.Proper ∧ name ≠ ".." := by
  obtain ⟨hnames, hback⟩ := hproper [] entries rfl
  have hget : (directory entries).get? [name] = some inner := by
    rw [get?_singleton]
    exact lookup_of_mem hnames h
  refine ⟨hget, hproper.of_get? hget, ?_⟩
  rintro rfl
  exact hback (List.mem_map.mpr ⟨_, h, rfl⟩)

theorem proper_file (content : Bytes) : (file content).Proper := by
  intro names entries h
  cases names with
  | nil => cases h
  | cons name rest => cases h

/-- A directory is proper when its names and all its entries are. -/
theorem proper_directory {entries : List (String × FileTree)} (hnames : (entries.map Prod.fst).Nodup)
    (hback : ".." ∉ entries.map Prod.fst) (hentries : ∀ entry ∈ entries, entry.2.Proper) :
    (directory entries).Proper :=
  forall_directories ⟨hnames, hback⟩ hentries

/-! ## Trees without links -/

/-- No step on the way goes back or through a link. -/
def Direct (tree : FileTree) (names : List String) : Prop :=
  ∀ before name, before ++ [name] <+: names →
    name ≠ ".." ∧ ∀ target, tree.get? (before ++ [name]) ≠ some (.link target)

theorem direct_nil (tree : FileTree) : tree.Direct [] := by
  intro before name h
  exact absurd (List.prefix_nil.mp h) (by simp)

theorem Direct.append {tree : FileTree} {names : List String} (hdirect : tree.Direct names)
    {name : String} (hback : name ≠ "..")
    (hlink : ∀ target, tree.get? (names ++ [name]) ≠ some (.link target)) :
    tree.Direct (names ++ [name]) := by
  intro before last h
  rcases List.prefix_concat_iff.mp h with heq | h
  · obtain ⟨rfl, hlast⟩ := List.append_inj' heq rfl
    obtain rfl := List.singleton_inj.mp hlast
    exact ⟨hback, hlink⟩
  · exact hdirect before last h

theorem Direct.not_mem_back {tree : FileTree} {names : List String} (hdirect : tree.Direct names) :
    ".." ∉ names := by
  intro hmem
  obtain ⟨before, after, rfl⟩ := List.append_of_mem hmem
  exact (hdirect before ".." ⟨after, by simp⟩).1 rfl

/-- The way to something that is no link is direct if it never goes back. -/
theorem direct_of_get? {tree inner : FileTree} {names : List String} (h : tree.get? names = some inner)
    (hinner : ∀ target, inner ≠ .link target) (hback : ".." ∉ names) : tree.Direct names := by
  rintro before name ⟨after, rfl⟩
  refine ⟨?_, fun target hlink => ?_⟩
  · rintro rfl
    exact hback (by simp)
  · rw [get?_append, hlink, Option.bind_some] at h
    cases after with
    | nil => exact hinner target (Option.some.inj h).symm
    | cons next rest => cases h

/-- A direct way is walked name by name, and needs no links. -/
theorem walk_of_direct {tree : FileTree} (links : Nat) {names todo : List String} (reached : Bool)
    (hdirect : tree.Direct (names ++ todo)) :
    tree.walk links ⟨names, reached⟩ todo = some ⟨names ++ todo, reached⟩ := by
  induction todo generalizing names with
  | nil => rw [walk, List.append_nil]
  | cons name rest ih =>
    have hsplit : names ++ name :: rest = (names ++ [name]) ++ rest := by simp
    rw [hsplit] at hdirect ⊢
    obtain ⟨hback, hlink⟩ := hdirect names name (List.prefix_append _ _)
    rw [walk, if_neg hback]
    split
    · rename_i target htarget
      exact absurd htarget (hlink target)
    · exact ih hdirect

theorem resolve?_of_direct {tree : FileTree} {names : List String} (hdirect : tree.Direct names)
    (slashes : Nat) : tree.resolve? ⟨slashes, names⟩ = some ⟨names, true⟩ :=
  walk_of_direct maxLinks true hdirect

theorem find?_of_direct {tree : FileTree} {names : List String} (hdirect : tree.Direct names)
    (slashes : Nat) : tree.find? ⟨slashes, names⟩ = tree.get? names := by
  rw [find?, resolve?_of_direct hdirect]
  rfl

end LoggerLint.FileTree
