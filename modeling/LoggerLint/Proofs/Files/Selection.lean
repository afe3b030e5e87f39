import LoggerLint.Proofs.Files.Sources

/-!
# Exactly which files are found

The walk through a project finds a file if and only if it lies below the root, every directory on the way to
it is entered, and the file itself is to be kept (`append_mem_kept_iff`). It finds no file twice
(`nodup_kept`), and everything that it finds lies within the root, even if the root itself is reached through
links (`isWithin?_of_get?`). The paths of files have distinct texts (`pathText_inj`), so sorting them by their
texts gives each its own place, whatever order the walk met them in (`selectSources_exact`).
-/

namespace LoggerLint

/-! ## Paths as texts -/

theorem toList_pathText {path : List String} (h : path ≠ []) :
    (pathText path).toList = ['/'].intercalate (path.map String.toList) := by
  have hparts : path.isEmpty = false := List.isEmpty_eq_false_iff.mpr h
  simp [pathText, Path.toString, hparts, String.toList_intercalate]

/-- Paths whose parts hold no slash are told apart by their texts. -/
theorem pathText_inj {a b : List String} (ha : a ≠ []) (hb : b ≠ [])
    (hslash : ∀ part ∈ a, '/' ∉ part.toList) (hslash' : ∀ part ∈ b, '/' ∉ part.toList)
    (h : pathText a = pathText b) : a = b := by
  have hsplit : ∀ {path : List String}, path ≠ [] → (∀ part ∈ path, '/' ∉ part.toList) →
      (pathText path).toList.splitOn '/' = path.map String.toList := by
    intro path hne hparts
    rw [toList_pathText hne]
    refine List.splitOn_intercalate '/' (fun chars hchars => ?_) (by simpa using hne)
    obtain ⟨part, hpart, rfl⟩ := List.mem_map.mp hchars
    exact hparts part hpart
  have hmap : a.map String.toList = b.map String.toList := by
    rw [← hsplit ha hslash, ← hsplit hb hslash', h]
  exact List.map_injective_iff.mpr (fun _ _ => String.toList_inj.mp) hmap

namespace FileTree

/-! ## The names on a way -/

/-- What holds of all names in a tree holds of the names on every way through it. -/
theorem forall_mem_of_get? {P : String → Prop} {tree inner : FileTree} {names : List String}
    (hnames : ∀ names entries, tree.get? names = some (.directory entries) →
      ∀ name ∈ entries.map Prod.fst, P name)
    (h : tree.get? names = some inner) : ∀ name ∈ names, P name := by
  induction names generalizing tree with
  | nil => exact nofun
  | cons first rest ih =>
    rw [get?_cons] at h
    obtain ⟨next, hnext, hrest⟩ := Option.bind_eq_some_iff.mp h
    cases tree with
    | file content => cases hnext
    | link target => cases hnext
    | directory entries =>
      refine List.forall_mem_cons.mpr ⟨?_, ih (fun names inner hinner => ?_) hrest⟩
      · exact hnames [] entries rfl first (List.mem_map.mpr ⟨_, mem_of_lookup hnext, rfl⟩)
      · refine hnames (first :: names) inner ?_
        rw [get?_cons, hnext]
        exact hinner

theorem Proper.not_mem_back {tree inner : FileTree} (hproper : tree.Proper) {names : List String}
    (h : tree.get? names = some inner) : ".." ∉ names := by
  have hnames : ∀ name ∈ names, name ≠ ".." := by
    refine forall_mem_of_get? (fun names entries hentries name hname => ?_) h
    rintro rfl
    exact (hproper names entries hentries).2 hname
  intro hback
  exact hnames ".." hback rfl

/-- No name in the tree holds a slash. -/
def Slashless (tree : FileTree) : Prop :=
  ∀ names entries, tree.get? names = some (.directory entries) →
    ∀ name ∈ entries.map Prod.fst, '/' ∉ name.toList

/-- On the way to something there are directories only. -/
theorem isDirectory_take {tree inner : FileTree} {names : List String} (h : tree.get? names = some inner)
    {depth : Nat} (hdepth : depth < names.length) :
    ∃ entries, tree.get? (names.take depth) = some (.directory entries) := by
  rw [← List.take_append_drop depth names, get?_append] at h
  obtain ⟨here, hhere, hrest⟩ := Option.bind_eq_some_iff.mp h
  rw [List.drop_eq_getElem_cons hdepth] at hrest
  cases here with
  | file content => cases hrest
  | link target => cases hrest
  | directory entries => exact ⟨entries, hhere⟩

/-! ## What the walk finds -/

section Walk

variable {enter keep : List String → Bool}

theorem keptOfAll_eq_flatMap (path : List String) (entries : List (String × FileTree)) :
    keptOfAll enter keep path entries =
      entries.flatMap fun entry => kept enter keep (path ++ [entry.1]) entry.2 := by
  induction entries with
  | nil => rfl
  | cons entry rest ih => rw [keptOfAll, keptOfEntry, ih, List.flatMap_cons]

/-- What is kept lies at or below the path that the walk has come to. -/
theorem prefix_of_mem_kept {path file : List String} {tree : FileTree} (hproper : tree.Proper)
    (h : file ∈ kept enter keep path tree) : path <+: file := by
  obtain ⟨names, -, rfl, -⟩ := mem_kept hproper h
  exact List.prefix_append path names

/-- A file is kept below the entry whose name comes next on its path. -/
theorem append_mem_keptOfAll_iff {entries : List (String × FileTree)}
    (hproper : (directory entries).Proper) (path : List String) (name : String) (rest : List String) :
    path ++ name :: rest ∈ keptOfAll enter keep path entries ↔
      ∃ inner, entries.lookup name = some inner ∧
        path ++ [name] ++ rest ∈ kept enter keep (path ++ [name]) inner := by
  have hsplit : path ++ name :: rest = path ++ [name] ++ rest := by simp
  rw [keptOfAll_eq_flatMap, List.mem_flatMap]
  constructor
  · rintro ⟨⟨other, inner⟩, hentry, hmem⟩
    obtain ⟨hfound, hinner, -⟩ := hproper.of_mem hentry
    obtain ⟨more, hmore⟩ := prefix_of_mem_kept hinner hmem
    simp only [List.append_assoc, List.append_cancel_left_eq, List.singleton_append,
      List.cons.injEq] at hmore
    obtain ⟨rfl, -⟩ := hmore
    rw [get?_singleton] at hfound
    exact ⟨inner, hfound, hsplit ▸ hmem⟩
  · rintro ⟨inner, hfound, hmem⟩
    exact ⟨(name, inner), mem_of_lookup hfound, hsplit ▸ hmem⟩

/-- **The walk finds exactly the files to keep on whose way every directory is entered.** -/
theorem append_mem_kept_iff {tree : FileTree} (hproper : tree.Proper) {path names : List String} :
    path ++ names ∈ kept enter keep path tree ↔
      (∃ content, tree.get? names = some (.file content)) ∧ keep (path ++ names) = true ∧
        ∀ depth < names.length, enter (path ++ names.take depth) = true := by
  induction names generalizing tree path with
  | nil =>
    rw [List.append_nil]
    cases tree with
    | file content => simp [kept, get?]
    | link target => simp [kept, get?]
    | directory entries =>
      -- what is kept of a directory lies below it
      have hbelow : path ∉ kept enter keep path (directory entries) := by
        intro h
        obtain ⟨names, content, hnames, hget, -⟩ := mem_kept hproper h
        obtain rfl : names = [] := by simpa using hnames
        cases hget
      simp [hbelow, get?]
  | cons name rest ih =>
    cases tree with
    | file content => simp [kept, get?, entries]
    | link target => simp [kept, get?, entries]
    | directory entries =>
      have hkept : path ++ name :: rest ∈ kept enter keep path (directory entries) ↔
          enter path = true ∧ path ++ name :: rest ∈ keptOfAll enter keep path entries := by
        rw [kept]
        split <;> simp_all
      have hentries : (directory entries).entries = entries := rfl
      rw [hkept, append_mem_keptOfAll_iff hproper path name rest, get?_cons, hentries]
      rcases hfound : entries.lookup name with _ | inner
      · simp
      · have hinner := (hproper.of_mem (mem_of_lookup hfound)).2.1
        have hrest := @ih inner hinner (path ++ [name])
        simp only [List.append_assoc, List.singleton_append] at hrest
        simp only [Option.some.injEq, exists_eq_left', Option.bind_some, List.length_cons,
          Nat.forall_lt_succ_left', List.take_zero, List.append_nil, List.take_succ_cons,
          List.append_assoc, List.singleton_append, hrest]
        tauto

/-- The walk starts below a directory, which is entered itself whatever its name. -/
theorem mem_keptOfAll_entries_iff {dir : FileTree} (hproper : dir.Proper) {path : List String} :
    path ∈ keptOfAll enter keep [] dir.entries ↔
      path ≠ [] ∧ (∃ content, dir.get? path = some (.file content)) ∧ keep path = true ∧
        ∀ depth < path.length, 0 < depth → enter (path.take depth) = true := by
  cases dir with
  | file content =>
    cases path with
    | nil => simp [entries, keptOfAll]
    | cons name rest => simp [entries, keptOfAll, get?]
  | link target =>
    cases path with
    | nil => simp [entries, keptOfAll]
    | cons name rest => simp [entries, keptOfAll, get?]
  | directory inside =>
    have hinside : (directory inside).entries = inside := rfl
    rw [hinside]
    cases path with
    | nil =>
      have hbelow : [] ∉ keptOfAll enter keep [] inside := by
        intro h
        obtain ⟨name, inner, -, names, content, hnames, -⟩ :=
          mem_keptOfAll inside (fun name inner hentry => (hproper.of_mem hentry).2.1) h
        cases hnames
      simp [hbelow]
    | cons name rest =>
      have hstep : name :: rest ∈ keptOfAll enter keep [] inside ↔
          ∃ inner, inside.lookup name = some inner ∧ [name] ++ rest ∈ kept enter keep [name] inner :=
        append_mem_keptOfAll_iff hproper [] name rest
      rw [hstep, get?_cons, hinside]
      rcases hfound : inside.lookup name with _ | inner
      · simp
      · have hinner := (hproper.of_mem (mem_of_lookup hfound)).2.1
        simp only [Option.some.injEq, exists_eq_left', append_mem_kept_iff hinner]
        simp only [List.cons_append, List.nil_append, ne_eq, reduceCtorEq, not_false_eq_true,
          Option.bind_some, List.length_cons, Nat.forall_lt_succ_left', Nat.lt_irrefl, List.take_zero,
          IsEmpty.forall_iff, Nat.zero_lt_succ, List.take_succ_cons, forall_const, true_and]

mutual

/-- **No file is found twice.** -/
theorem nodup_kept (path : List String) : {tree : FileTree} → tree.Proper →
    (kept enter keep path tree).Nodup
  | .file content, _ => by
    rw [kept]
    split
    · exact List.pairwise_singleton _ path
    · exact List.nodup_nil
  | .link _, _ => List.nodup_nil
  | .directory entries, hproper => by
    rw [kept]
    split
    · exact nodup_keptOfAll path entries (fun entry hentry => (hproper.of_mem hentry).2.1)
        (hproper [] entries rfl).1
    · exact List.nodup_nil

theorem nodup_keptOfAll (path : List String) : (entries : List (String × FileTree)) →
    (∀ entry ∈ entries, entry.2.Proper) → (entries.map Prod.fst).Nodup →
    (keptOfAll enter keep path entries).Nodup
  | [], _, _ => List.nodup_nil
  | (name, inner) :: rest, hproper, hnames => by
    obtain ⟨hfirst, hnames⟩ := List.nodup_cons.mp hnames
    obtain ⟨hinner, hproper⟩ := List.forall_mem_cons.mp hproper
    rw [keptOfAll, List.nodup_append]
    refine ⟨nodup_kept (path ++ [name]) hinner, nodup_keptOfAll path rest hproper hnames, ?_⟩
    rintro file hfile other hother rfl
    -- the name after the path would be that of two entries
    rw [keptOfAll_eq_flatMap] at hother
    obtain ⟨entry, hentry, hother⟩ := List.mem_flatMap.mp hother
    have hsame : path ++ [name] = path ++ [entry.1] :=
      (List.prefix_of_prefix_length_le (prefix_of_mem_kept hinner hfile)
        (prefix_of_mem_kept (hproper entry hentry) hother) (by simp)).eq_of_length (by simp)
    obtain rfl : name = entry.1 := by simpa using hsame
    exact hfirst (List.mem_map.mpr ⟨entry, hentry, rfl⟩)

end

end Walk

/-! ## Files within the root -/

/-- A walk goes on from where it ends, with the links that are left; if it ends nowhere, so does every longer
one. -/
theorem walk_append (tree : FileTree) (links : Nat) (here : Place) (todo more : List String) :
    ∃ left, tree.walk links here (todo ++ more) =
      (tree.walk links here todo).bind fun place => tree.walk left place more := by
  fun_induction walk tree links here todo with
  | case1 links here => exact ⟨links, rfl⟩
  | case2 links here todo stands ih =>
    rw [List.cons_append, walk, if_pos rfl]
    exact ih
  | case3 here name rest hback target hlink =>
    rw [List.cons_append, walk, if_neg hback, hlink]
    exact ⟨0, rfl⟩
  | case4 here name rest hback target hlink links start ih =>
    rw [List.cons_append, walk, if_neg hback, hlink]
    simp only [← List.append_assoc]
    exact ih
  | case5 links here name rest hback hlink ih =>
    rw [List.cons_append, walk, if_neg hback]
    split
    · rename_i target htarget
      exact absurd htarget (hlink target)
    · exact ih

/-- A walk that ends somewhere can go on from there along a direct way. -/
theorem walk_append_of_direct {tree : FileTree} {links : Nat} {here place : Place}
    {todo more : List String} (h : tree.walk links here todo = some place)
    (hdirect : tree.Direct (place.names ++ more)) :
    tree.walk links here (todo ++ more) = some ⟨place.names ++ more, place.reached⟩ := by
  obtain ⟨left, hwalk⟩ := walk_append tree links here todo more
  rw [hwalk, h, Option.bind_some, walk_of_direct left place.reached hdirect]

/-- What is found under a path stands where the path leads. -/
theorem exists_place_of_find? {tree inner : FileTree} {path : Path} (h : tree.find? path = some inner) :
    ∃ place, tree.resolve? path = some place ∧ tree.get? place.names = some inner := by
  rw [find?] at h
  split at h
  · rename_i place hplace
    split at h
    · exact ⟨place, hplace, h⟩
    · cases h
  · cases h

/-- **A file below the root lies within it**, wherever the root's own links lead. -/
theorem isWithin?_of_get? {tree dir : FileTree} {root : Path} {path : List String} {content : Bytes}
    (hproper : tree.Proper) (hroot : tree.find? root = some dir)
    (hfile : dir.get? path = some (.file content)) :
    tree.isWithin? (root.join ⟨0, path⟩) root = some true := by
  obtain ⟨place, hplace, hdir⟩ := exists_place_of_find? hroot
  have hget : tree.get? (place.names ++ path) = some (.file content) := by
    rw [get?_append, hdir]
    exact hfile
  have hdirect := direct_of_get? hget nofun (hproper.not_mem_back hget)
  have hpath : tree.resolve? (root.join ⟨0, path⟩) = some ⟨place.names ++ path, place.reached⟩ :=
    walk_append_of_direct hplace hdirect
  rw [isWithin?, hpath, hplace]
  simp

/-! ## The selection -/

/-- A file below a directory is a source to look at: no directory on the way to it is skipped or ignored, and
its extension, the ignore files and the patterns are all for it. -/
structure Selected (dir : FileTree) (config : Config) (ignored : List String → Bool)
    (path : List String) : Prop where
  /-- it lies below the directory -/
  below : path ≠ []
  /-- it is a file, and no link -/
  file : ∃ content, dir.get? path = some (.file content)
  /-- on the way there are directories and no links, … -/
  through : ∀ depth < path.length, 0 < depth →
    ∃ entries, dir.get? (path.take depth) = some (.directory entries)
  /-- … none of them with a name that is skipped, … -/
  entered : ∀ depth < path.length, 0 < depth → (path.take depth).getLast?.getD "" ∉ skippedDirectories
  /-- … and none ignored -/
  visible : ∀ depth < path.length, 0 < depth → ignored (path.take depth) = false
  /-- it has one of the extensions -/
  extension : Path.extension ⟨0, path⟩ ∈ config.extensions
  /-- it is not ignored itself -/
  unignored : ignored path = false
  /-- if there are patterns for sources, one of them fits -/
  included : config.includes ≠ [] → ∃ glob ∈ config.includes, Glob.accepts glob (pathText path) = true
  /-- and no pattern against it does -/
  unexcluded : ∀ glob ∈ config.excludes, Glob.accepts glob (pathText path) = false

/-- The extension and the patterns of a configuration are for a path. -/
theorem selects_iff {config : Config} {path : List String} :
    config.selects ⟨0, path⟩ = true ↔ Path.extension ⟨0, path⟩ ∈ config.extensions ∧
      (config.includes ≠ [] → ∃ glob ∈ config.includes, Glob.accepts glob (pathText path) = true) ∧
      ∀ glob ∈ config.excludes, Glob.accepts glob (pathText path) = false := by
  rw [Config.selects, Bool.and_eq_true, Bool.and_eq_true, and_assoc, ← pathText, Bool.or_eq_true,
    List.isEmpty_iff, List.any_eq_true, Bool.not_eq_true', List.any_eq_false, List.contains_iff_mem]
  simp only [or_iff_not_imp_left, Bool.not_eq_true, ne_eq]

/-- A file of the root is selected if the configuration is for its name and it is not ignored. -/
theorem selected_singleton_iff {dir : FileTree} {config : Config} {ignored : List String → Bool} {name : String} :
    Selected dir config ignored [name] ↔
      (∃ content, dir.get? [name] = some (.file content)) ∧ config.selects ⟨0, [name]⟩ = true ∧
        ignored [name] = false := by
  have hnone : ∀ {depth : Nat}, depth < [name].length → 0 < depth → False := by
    intro depth hdepth hpos
    rw [List.length_singleton] at hdepth
    omega
  rw [selects_iff]
  constructor
  · intro h
    exact ⟨h.file, ⟨h.extension, h.included, h.unexcluded⟩, h.unignored⟩
  · rintro ⟨hfile, ⟨hextension, hincluded, hunexcluded⟩, hunignored⟩
    exact ⟨List.cons_ne_nil _ _, hfile, fun _ hdepth hpos => (hnone hdepth hpos).elim,
      fun _ hdepth hpos => (hnone hdepth hpos).elim, fun _ hdepth hpos => (hnone hdepth hpos).elim,
      hextension, hunignored, hincluded, hunexcluded⟩

/-- Without patterns the extension alone decides. -/
theorem selects_of_no_patterns {config : Config} {path : Path} (hincludes : config.includes = [])
    (hexcludes : config.excludes = []) : config.selects path = true ↔ path.extension ∈ config.extensions := by
  simp [Config.selects, hincludes, hexcludes]

variable {tree : FileTree} {root : Path} {config : Config} {ignored : List String → Bool}

theorem Proper.of_find? {inner : FileTree} {path : Path} (hproper : tree.Proper)
    (h : tree.find? path = some inner) : inner.Proper := by
  obtain ⟨place, -, hget⟩ := exists_place_of_find? h
  exact hproper.of_get? hget

/-- A path is found exactly if its file is selected; that it lies within the root goes without saying. -/
theorem mem_selectSources_iff (hproper : tree.Proper) {path : List String} :
    path ∈ tree.selectSources root config ignored ↔
      ∃ dir, tree.find? root = some dir ∧ Selected dir config ignored path := by
  rw [selectSources, List.mem_mergeSort, List.mem_filter]
  rcases hroot : tree.find? root with _ | dir
  · simp [keptOfAll]
  · rw [Option.map_some, Option.getD_some, mem_keptOfAll_entries_iff (hproper.of_find? hroot)]
    simp only [Option.some.injEq, exists_eq_left', Bool.and_eq_true, selects_iff, Bool.not_eq_true',
      List.contains_eq_mem, decide_eq_false_iff_not]
    constructor
    · rintro ⟨⟨hbelow, ⟨content, hfile⟩, ⟨⟨hextension, hincluded, hunexcluded⟩, hunignored⟩, henter⟩, -⟩
      exact ⟨hbelow, ⟨content, hfile⟩, fun depth hdepth _ => isDirectory_take hfile hdepth,
        fun depth hdepth hpos => (henter depth hdepth hpos).1,
        fun depth hdepth hpos => (henter depth hdepth hpos).2, hextension, hunignored, hincluded,
        hunexcluded⟩
    · intro h
      obtain ⟨content, hfile⟩ := h.file
      refine ⟨⟨h.below, h.file, ⟨⟨h.extension, h.included, h.unexcluded⟩, h.unignored⟩,
        fun depth hdepth hpos => ⟨h.entered depth hdepth hpos, h.visible depth hdepth hpos⟩⟩, ?_⟩
      rw [isWithin?_of_get? hproper hroot hfile]
      rfl

/-- No path is listed twice. -/
theorem nodup_selectSources (hproper : tree.Proper) : (tree.selectSources root config ignored).Nodup := by
  rw [selectSources, (List.mergeSort_perm _ _).nodup_iff]
  refine List.Pairwise.filter _ ?_
  rcases hroot : tree.find? root with _ | (content | target | inside)
  · exact List.nodup_nil
  · exact List.nodup_nil
  · exact List.nodup_nil
  · have hdir := hproper.of_find? hroot
    exact nodup_keptOfAll [] inside (fun entry hentry => (hdir.of_mem hentry).2.1) (hdir [] inside rfl).1

/-- **The paths stand in the order of their texts**, each text after another one. -/
theorem pairwise_lt_selectSources (hproper : tree.Proper) (hslashless : tree.Slashless) :
    (tree.selectSources root config ignored).Pairwise fun a b => pathText a < pathText b := by
  have hsorted : (tree.selectSources root config ignored).Pairwise fun a b =>
      decide (pathText a ≤ pathText b) = true := by
    refine List.pairwise_mergeSort (fun a b c hab hbc => ?_) (fun a b => ?_) _
    · exact decide_eq_true (String.le_trans (of_decide_eq_true hab) (of_decide_eq_true hbc))
    · rw [Bool.or_eq_true, decide_eq_true_eq, decide_eq_true_eq]
      exact String.le_total _ _
  have hslash : ∀ path ∈ tree.selectSources root config ignored,
      path ≠ [] ∧ ∀ part ∈ path, '/' ∉ part.toList := by
    intro path hpath
    obtain ⟨dir, hroot, hselected⟩ := (mem_selectSources_iff hproper).mp hpath
    obtain ⟨place, -, hdir⟩ := exists_place_of_find? hroot
    obtain ⟨content, hfile⟩ := hselected.file
    have hget : tree.get? (place.names ++ path) = some (.file content) := by
      rw [get?_append, hdir]
      exact hfile
    refine ⟨hselected.below, fun part hpart => ?_⟩
    exact forall_mem_of_get? hslashless hget part (List.mem_append_right _ hpart)
  refine List.Pairwise.imp_of_mem ?_ (hsorted.and (nodup_selectSources hproper))
  rintro a b ha hb ⟨hle, hne⟩
  obtain ⟨hane, ha⟩ := hslash a ha
  obtain ⟨hbne, hb⟩ := hslash b hb
  -- equal texts would be those of one path
  refine String.not_le.mp fun hge => hne ?_
  exact pathText_inj hane hbne ha hb (String.le_antisymm (of_decide_eq_true hle) hge)

/-- An ignore file that is read stands where it was said to stand. -/
theorem base_of_ofBytes {base : List String} {content : Bytes} {file : IgnoreFile}
    (h : IgnoreFile.ofBytes base content = .ok file) : file.base = base := by
  rw [IgnoreFile.ofBytes] at h
  split at h
  · cases h
  · obtain ⟨rules, -, h⟩ := exists_of_bind_eq_ok h
    exact (congrArg IgnoreFile.base (Except.ok.inj h)).symm

/-- The ignore files of a project have an answer for every path below its root. -/
theorem isSome_ignores? {ignoring : Ignoring} {nested : Bool}
    (h : Ignoring.load tree root nested = .ok ignoring) (path : List String) (slash : Bool) :
    (ignoring.ignores? (root.normalParts ++ path) slash).isSome := by
  cases ignoring with
  | nothing => rfl
  | everywhere files => rfl
  | atRoot file =>
    -- only the ignore file of the root is read by itself, and it stands there
    have hbase : file.base = root.normalParts := by
      rw [Ignoring.load] at h
      split at h
      · obtain ⟨files, -, h⟩ := exists_of_bind_eq_ok h
        have hwhole := Except.ok.inj h
        split at hwhole
        · cases hwhole
        · cases hwhole
      · split at h
        · obtain ⟨own, hown, h⟩ := exists_of_map_eq_ok h
          obtain rfl := Ignoring.atRoot.inj h
          exact base_of_ofBytes hown
        · cases h
    rw [Ignoring.ignores?, IgnoreFile.ignores?, hbase]
    split
    · rfl
    · rw [if_pos (List.isPrefixOf_iff_prefix.mpr (List.prefix_append _ _))]
      rfl

/-- **Exactly the selected files are found, each of them once and in the order of their paths.** Whatever is
ignored, a path is listed if and only if its file is selected, and then it lies within the root; the texts of
the paths that are listed increase. What is ignored in a project is what its ignore files say. -/
theorem selectSources_exact (tree : FileTree) (root : Path) (config : Config) (hproper : tree.Proper)
    (hslashless : tree.Slashless) :
    (∀ ignored,
      (∀ path, path ∈ tree.selectSources root config ignored ↔
        ∃ dir, tree.find? root = some dir ∧ Selected dir config ignored path) ∧
      (tree.selectSources root config ignored).Pairwise (fun a b => pathText a < pathText b) ∧
      ∀ dir path, tree.find? root = some dir → Selected dir config ignored path →
        tree.isWithin? (root.join ⟨0, path⟩) root = some true) ∧
    ∀ ignoring, Ignoring.load tree root config.nestedGitignore = .ok ignoring →
      (∀ path, (ignoring.ignores? (root.normalParts ++ path) false).isSome) ∧
      tree.findSources root config = .ok (tree.selectSources root config fun path =>
        (ignoring.ignores? (root.normalParts ++ path) false).getD false) := by
  refine ⟨fun ignored => ⟨fun path => mem_selectSources_iff hproper,
    pairwise_lt_selectSources hproper hslashless, fun dir path hroot hselected => ?_⟩, ?_⟩
  · obtain ⟨content, hfile⟩ := hselected.file
    exact isWithin?_of_get? hproper hroot hfile
  · intro ignoring hload
    refine ⟨fun path => isSome_ignores? hload path false, ?_⟩
    rw [findSources, hload]
    rfl

/-! ## A project behind a link -/

/-- A project with a directory that is skipped, links, and two directories that the order of names and the
order of paths put differently. -/
def linkedRoot : FileTree :=
  .directory [("a", .directory [("x.js", .file []), ("z.js", .file [])]),
    ("a-b", .directory [("x.js", .file [])]), ("d", .link ⟨0, ["a"]⟩),
    ("node_modules", .directory [("a.js", .file [])])]

/-- The same project, with a link that leads to it. -/
def linkedProject : FileTree :=
  .directory [("p", linkedRoot), ("q", .link ⟨0, ["p"]⟩)]

/-- Some files are left out. -/
def linkedConfig : Config :=
  { includes := ["*.js"], excludes := ["*/z.js"] }

theorem linkedProject_proper : linkedProject.Proper ∧ linkedProject.Slashless := by
  have hleaf : ∀ {tree : FileTree} {P : List (String × FileTree) → Prop}, tree.entries = [] →
      tree.isDirectory = false → ∀ names inner, tree.get? names = some (.directory inner) → P inner := by
    intro tree P hentries hleaf names inner h
    cases names with
    | nil =>
      obtain rfl := Option.some.inj h
      cases hleaf
    | cons name rest =>
      rw [get?_cons, hentries] at h
      cases h
  have hall : ∀ names entries, linkedProject.get? names = some (.directory entries) →
      ((entries.map Prod.fst).Nodup ∧ ".." ∉ entries.map Prod.fst) ∧
        ∀ name ∈ entries.map Prod.fst, '/' ∉ name.toList := by
    refine forall_directories (by decide) fun entry hentry => ?_
    rcases List.mem_pair.mp hentry with rfl | rfl
    · refine forall_directories (by decide) fun entry hentry => ?_
      simp only [List.mem_cons, List.not_mem_nil, or_false] at hentry
      rcases hentry with rfl | rfl | rfl | rfl
      · refine forall_directories (by decide) fun entry hentry => ?_
        rcases List.mem_pair.mp hentry with rfl | rfl <;> exact hleaf rfl rfl
      · refine forall_directories (by decide) fun entry hentry => ?_
        obtain rfl := List.mem_singleton.mp hentry
        exact hleaf rfl rfl
      · exact hleaf rfl rfl
      · refine forall_directories (by decide) fun entry hentry => ?_
        obtain rfl := List.mem_singleton.mp hentry
        exact hleaf rfl rfl
    · exact hleaf rfl rfl
  exact ⟨fun names entries h => (hall names entries h).1, fun names entries h => (hall names entries h).2⟩

theorem selected_linked {name : String} (hname : name = "a" ∨ name = "a-b") :
    Selected linkedRoot linkedConfig (fun _ => false) [name, "x.js"] := by
  rcases hname with rfl | rfl
  all_goals
    refine ⟨by decide, ⟨[], rfl⟩, fun depth hdepth hpos => ?_, by decide, fun _ _ _ => rfl,
      by decide +kernel, rfl, fun _ => ⟨"*.js", by decide, by decide +kernel⟩, by decide +kernel⟩
    obtain rfl : depth = 1 := by
      rw [List.length_cons, List.length_singleton] at hdepth
      omega
    exact ⟨_, rfl⟩

/-- Two of its files are found; of the others one is left out, one lies behind a link, and one is skipped. -/
theorem selectSources_linked :
    linkedProject.Proper ∧ linkedProject.Slashless ∧
    ["a-b", "x.js"] ∈ linkedProject.selectSources ⟨1, ["q"]⟩ linkedConfig (fun _ => false) ∧
    ["a", "x.js"] ∈ linkedProject.selectSources ⟨1, ["q"]⟩ linkedConfig (fun _ => false) ∧
    ["a", "z.js"] ∉ linkedProject.selectSources ⟨1, ["q"]⟩ linkedConfig (fun _ => false) ∧
    ["d", "x.js"] ∉ linkedProject.selectSources ⟨1, ["q"]⟩ linkedConfig (fun _ => false) ∧
    ["node_modules", "a.js"] ∉ linkedProject.selectSources ⟨1, ["q"]⟩ linkedConfig (fun _ => false) ∧
    (linkedProject.selectSources ⟨1, ["q"]⟩ linkedConfig (fun _ => false)).Pairwise
      fun a b => pathText a < pathText b := by
  obtain ⟨hproper, hslashless⟩ := linkedProject_proper
  have hroot : linkedProject.find? ⟨1, ["q"]⟩ = some linkedRoot := by
    have hfollow : linkedProject.resolve? ⟨1, ["q"]⟩ = linkedProject.walk 39 ⟨[], true⟩ ["p"] := by
      rw [resolve?, walk]
      rfl
    have hget : linkedProject.get? ["p"] = some linkedRoot := rfl
    have hdirect : linkedProject.Direct ([] ++ ["p"]) :=
      direct_of_get? hget (fun target h => by cases h) (by decide)
    rw [find?, hfollow, walk_of_direct 39 true hdirect]
    exact hget
  obtain ⟨hmem, hsorted, -⟩ :=
    (selectSources_exact linkedProject ⟨1, ["q"]⟩ linkedConfig hproper hslashless).1 fun _ => false
  simp only [hmem, hroot, Option.some.injEq, exists_eq_left']
  refine ⟨hproper, hslashless, selected_linked (.inr rfl), selected_linked (.inl rfl), ?_, ?_, ?_, hsorted⟩
  · intro h
    exact absurd (h.unexcluded "*/z.js" (by decide)) (by decide +kernel)
  · intro h
    obtain ⟨content, hfile⟩ := h.file
    cases hfile
  · intro h
    exact absurd (h.entered 1 (by decide) (by decide)) (by decide)

end FileTree

end LoggerLint
