import LoggerLint.Console.Prologue
import LoggerLint.Proofs.Files.Extensions

/-!
# The namespace of a file

The namespace of a file is its name without the last extension. `fileNamespace` reads a path from its end; here it is
told from the front. The last part of a path stands between the separators at its end and the one before it
(`lastPart_append`), and the stem of a name is all of it, or what stands before its last dot (`stem_eq_or`). So the
directories of a path do not show in the namespace, and it holds no separator (`namespace_of_last_part`).
-/

namespace LoggerLint.Prologue

/-! ## The last part of a path -/

theorem isSeparator_iff {c : Char} : isSeparator c = true ↔ c = '/' ∨ c = '\\' := by
  simp [isSeparator]

theorem isSeparator_eq_false_iff {c : Char} : isSeparator c = false ↔ c ≠ '/' ∧ c ≠ '\\' := by
  rw [← Bool.not_eq_true, isSeparator_iff, not_or]

/-- **The last part stands between separators**: those that end the path, if any do, and one right before it, unless
the path starts with it. -/
theorem lastPart_append {front base trail : List Char} (hfront : ∀ c ∈ front.getLast?, isSeparator c = true)
    (hne : base ≠ []) (hbase : ∀ c ∈ base, isSeparator c = false) (htrail : ∀ c ∈ trail, isSeparator c = true) :
    lastPart (front ++ base ++ trail) = base := by
  have hreverse : (front ++ base ++ trail).reverse = trail.reverse ++ (base.reverse ++ front.reverse) := by
    rw [List.reverse_append, List.reverse_append]
  have hdrop : (front ++ base ++ trail).reverse.dropWhile isSeparator = base.reverse ++ front.reverse := by
    obtain ⟨c, rest, hrest⟩ := List.exists_cons_of_ne_nil (mt List.reverse_eq_nil_iff.mp hne)
    have hc : ¬ isSeparator c = true := by
      rw [hbase c (List.mem_reverse.mp (hrest ▸ List.mem_cons_self ..))]
      exact Bool.false_ne_true
    rw [hreverse, List.dropWhile_append_of_pos fun c hc => htrail c (List.mem_reverse.mp hc), hrest, List.cons_append,
      List.dropWhile_cons_of_neg hc]
  have hstop : front.reverse.takeWhile (fun c => !isSeparator c) = [] := by
    rcases hlast : front.reverse with _ | ⟨c, rest⟩
    · rfl
    · have hc : front.getLast? = some c := by
        rw [List.getLast?_eq_head?_reverse, hlast, List.head?_cons]
      have hself : ¬ (!isSeparator c) = true := by
        rw [hfront c hc]
        exact Bool.false_ne_true
      exact List.takeWhile_cons_of_neg hself
  have hkept : ∀ c ∈ base.reverse, (!isSeparator c) = true := by
    intro c hc
    rw [hbase c (List.mem_reverse.mp hc), Bool.not_false]
  rw [lastPart, hdrop, List.takeWhile_append_of_pos hkept, hstop, List.append_nil, List.reverse_reverse]

/-- A name on its own is the last part. -/
theorem lastPart_of_name {name : List Char} (hne : name ≠ []) (hname : ∀ c ∈ name, isSeparator c = false) :
    lastPart name = name := by
  have hself : lastPart ([] ++ name ++ []) = name := lastPart_append (by simp) hne hname (by simp)
  rwa [List.nil_append, List.append_nil] at hself

/-- So is a name behind a separator. -/
theorem lastPart_of_path {directory name trail : List Char} {separator : Char}
    (hseparator : isSeparator separator = true) (hne : name ≠ []) (hname : ∀ c ∈ name, isSeparator c = false)
    (htrail : ∀ c ∈ trail, isSeparator c = true) : lastPart (directory ++ separator :: name ++ trail) = name := by
  have hfront : ∀ c ∈ (directory ++ [separator]).getLast?, isSeparator c = true := by
    rw [List.getLast?_concat]
    rintro c ⟨⟩
    exact hseparator
  rw [← List.singleton_append, ← List.append_assoc directory, lastPart_append hfront hne hname htrail]

/-- No separator stands within the last part. -/
theorem isSeparator_eq_false_of_mem_lastPart {path : List Char} {c : Char} (hc : c ∈ lastPart path) :
    isSeparator c = false := by
  have hkept := List.all_eq_true.mp List.all_takeWhile c (List.mem_reverse.mp hc)
  rwa [Bool.not_eq_true'] at hkept

/-! ## A name without its last extension -/

/-- Read from the end, what has no dot is passed over. -/
theorem dropWhile_reverse_append {run : List Char} (hdot : '.' ∉ run) (rest : List Char) :
    (run.reverse ++ rest).dropWhile (· ≠ '.') = rest.dropWhile (· ≠ '.') := by
  refine List.dropWhile_append_of_pos fun c hc => decide_eq_true ?_
  rintro rfl
  exact hdot (List.mem_reverse.mp hc)

/-- What stands before the last dot is the name without its last extension. -/
theorem stem_append {front extension : List Char} (hfront : front ≠ []) (hdot : '.' ∉ extension) :
    stem (front ++ '.' :: extension) = front := by
  have hreverse : (front ++ '.' :: extension).reverse = extension.reverse ++ '.' :: front.reverse := by
    rw [List.reverse_append, List.reverse_cons, List.append_assoc, List.singleton_append]
  obtain ⟨c, rest, hrest⟩ := List.exists_cons_of_ne_nil (mt List.reverse_eq_nil_iff.mp hfront)
  rw [stem, hreverse, dropWhile_reverse_append hdot, List.dropWhile_cons_of_neg (by simp), hrest]
  dsimp only
  rw [← hrest, List.reverse_reverse]

/-- A name without a dot behind its first character is all stem. -/
theorem stem_of_not_mem_tail {name : List Char} (hdot : '.' ∉ name.tail) : stem name = name := by
  rcases name with _ | ⟨first, rest⟩
  · rfl
  · rw [List.tail_cons] at hdot
    rw [stem, List.reverse_cons, dropWhile_reverse_append hdot]
    -- a dot at the start has nothing before it that could be a stem
    by_cases hfirst : first = '.'
    · rw [List.dropWhile_cons_of_neg (by simpa using hfirst)]
    · rw [List.dropWhile_cons_of_pos (by simpa using hfirst), List.dropWhile_nil]

/-- **A name is all stem, or its stem and a last extension.** -/
theorem stem_eq_or (name : List Char) :
    '.' ∉ name.tail ∧ stem name = name ∨
      '.' ∈ name.tail ∧ ∃ extension, name = stem name ++ '.' :: extension ∧ '.' ∉ extension ∧ stem name ≠ [] := by
  by_cases hdot : '.' ∈ name.tail
  · obtain ⟨front, extension, htail, hextension⟩ := Path.exists_last_append hdot
    rcases name with _ | ⟨first, rest⟩
    · cases hdot
    · have hname : first :: rest = (first :: front) ++ '.' :: extension := congrArg (first :: ·) htail
      have hstem : stem (first :: rest) = first :: front := by
        rw [hname, stem_append (List.cons_ne_nil _ _) hextension]
      refine .inr ⟨hdot, extension, ?_, hextension, ?_⟩
      · rw [hstem, hname]
      · rw [hstem]
        exact List.cons_ne_nil _ _
  · exact .inl ⟨hdot, stem_of_not_mem_tail hdot⟩

theorem mem_of_mem_stem {name : List Char} {c : Char} (hc : c ∈ stem name) : c ∈ name := by
  rcases stem_eq_or name with ⟨-, hall⟩ | ⟨-, extension, hname, -⟩
  · rwa [hall] at hc
  · rw [hname]
    exact List.mem_append_left _ hc

/-! ## The namespace -/

/-- A namespace holds no separator. -/
theorem isSeparator_eq_false_of_mem_fileNamespace {path : List Char} {c : Char} (hc : c ∈ fileNamespace path) :
    isSeparator c = false :=
  isSeparator_eq_false_of_mem_lastPart (mem_of_mem_stem hc)

/-- **The namespace of a file depends on its name only.** No path has a namespace with a separator in it. Take any
name: some characters, and none of them a separator. Whatever directories stand before it, with either separator
between, and whatever separators stand behind it, the namespace is that of the name. If the name has no dot but one at
its start, it is its own namespace. Else the namespace is not empty, and only the last dot of the name and what stands
behind that are missing from it. -/
theorem namespace_of_last_part (path : List Char) :
    ('/' ∉ fileNamespace path ∧ '\\' ∉ fileNamespace path) ∧
    ∀ name : List Char, name ≠ [] → (∀ c ∈ name, c ≠ '/' ∧ c ≠ '\\') →
      (∀ (directory : List Char) (separator : Char) (trail : List Char), separator = '/' ∨ separator = '\\' →
        (∀ c ∈ trail, c = '/' ∨ c = '\\') →
        fileNamespace (directory ++ separator :: name ++ trail) = fileNamespace name) ∧
      ('.' ∉ name.tail → fileNamespace name = name) ∧
      ('.' ∈ name.tail → ∃ extension, name = fileNamespace name ++ '.' :: extension ∧ '.' ∉ extension ∧
        fileNamespace name ≠ []) := by
  constructor
  · constructor
    · exact fun hc => absurd (isSeparator_eq_false_of_mem_fileNamespace hc) (by decide)
    · exact fun hc => absurd (isSeparator_eq_false_of_mem_fileNamespace hc) (by decide)
  · intro name hne hname
    have hname' : ∀ c ∈ name, isSeparator c = false := fun c hc => isSeparator_eq_false_iff.mpr (hname c hc)
    have hlast := lastPart_of_name hne hname'
    refine ⟨fun directory separator trail hseparator htrail => ?_, fun hdot => ?_, fun hdot => ?_⟩
    · have htrail' : ∀ c ∈ trail, isSeparator c = true := fun c hc => isSeparator_iff.mpr (htrail c hc)
      rw [fileNamespace, fileNamespace, hlast, lastPart_of_path (isSeparator_iff.mpr hseparator) hne hname' htrail']
    · rw [fileNamespace, hlast, stem_of_not_mem_tail hdot]
    · rw [fileNamespace, hlast]
      rcases stem_eq_or name with ⟨hnone, -⟩ | ⟨-, hsplit⟩
      · exact absurd hdot hnone
      · exact hsplit

/-- A path with different separators at its end to a name with two dots, and a name with no dot but at its start. -/
theorem namespace_of_last_part_dotted :
    fileNamespace "src/.env.test/\\".toList = fileNamespace ".env.test".toList ∧
    (∃ extension, ".env.test".toList = fileNamespace ".env.test".toList ++ '.' :: extension ∧
      '.' ∉ extension ∧ fileNamespace ".env.test".toList ≠ []) ∧
    fileNamespace ".env".toList = ".env".toList := by
  obtain ⟨-, hname⟩ := namespace_of_last_part []
  obtain ⟨hpath, -, hsplit⟩ := hname ".env.test".toList (by decide) (by simp)
  obtain ⟨-, hwhole, -⟩ := hname ".env".toList (by decide) (by simp)
  exact ⟨hpath "src".toList '/' "/\\".toList (.inl rfl) (by simp), hsplit (by decide), hwhole (by decide)⟩

end LoggerLint.Prologue
