import LoggerLint.Proofs.Config.Extensions
import LoggerLint.Proofs.Files.Nested

/-!
# Extensions that are accepted, and extensions of files

A configuration accepts every extension that is a dot with something behind it, and further dots may stand in it. The
extension of a file goes from the last dot of its name on (`Path.suffixChars_append`). So a name that ends in an
accepted extension has one of the accepted extensions if and only if an accepted extension without a further dot
stands at its end (`Config.extension_mem_iff`); an extension with a single dot does that itself.

The files with an accepted extension are therefore found exactly under that condition (`accepted_extension_found_iff`),
and an extension with several dots may be accepted and stand for no file at all.
-/

namespace LoggerLint

namespace Path

/-- An element of a list has a last place in it. -/
theorem exists_last_append {α : Type} [DecidableEq α] {a : α} {items : List α} (h : a ∈ items) :
    ∃ front tail, items = front ++ a :: tail ∧ a ∉ tail := by
  obtain ⟨front, tail, hitems, hfront⟩ := List.eq_append_cons_of_mem (List.mem_reverse.mpr h)
  refine ⟨tail.reverse, front.reverse, ?_, List.mem_reverse.not.mpr hfront⟩
  rw [← List.reverse_reverse items, hitems]
  simp

/-- **The extension goes from the last dot on**, unless the name begins or ends with that dot. -/
theorem suffixChars_append {front tail : List Char} (hfront : front ≠ []) (hdot : '.' ∉ tail) :
    suffixChars (front ++ '.' :: tail) = if tail = [] then [] else '.' :: tail := by
  have hrun : ((front ++ '.' :: tail).reverse.takeWhile (· ≠ '.')).reverse = tail := by
    have htail : ∀ c ∈ tail.reverse, decide (c ≠ '.') = true := by
      intro c hc
      exact decide_eq_true (fun hc' => hdot (hc' ▸ List.mem_reverse.mp hc))
    rw [List.reverse_append, List.reverse_cons, List.append_assoc, List.takeWhile_append_of_pos htail,
      List.singleton_append, List.takeWhile_cons_of_neg (by simp), List.append_nil, List.reverse_reverse]
  have hlength := List.length_pos_of_ne_nil hfront
  rw [suffixChars, hrun]
  by_cases htail : tail = []
  · simp [htail]
  · simp [htail]
    omega

theorem extension_append {stem ending : String} {front tail : List Char} (hstem : stem ≠ "")
    (hending : ending.toList = front ++ '.' :: tail) (hdot : '.' ∉ tail) :
    Path.extension ⟨0, [stem ++ ending]⟩ = String.ofList (if tail = [] then [] else '.' :: tail) := by
  have hfront : stem.toList ++ front ≠ [] := by
    intro hnil
    exact hstem (String.toList_inj.mp (List.append_eq_nil_iff.mp hnil).1)
  have hname : (stem ++ ending).toList = (stem.toList ++ front) ++ '.' :: tail := by
    rw [String.toList_append, hending, List.append_assoc]
  show String.ofList (suffixChars (stem ++ ending).toList) = _
  rw [hname, suffixChars_append hfront hdot]

end Path

namespace Config

theorem isExtension_iff {text : String} :
    isExtension text = true ↔ ∃ c rest, text.toList = '.' :: c :: rest := by
  unfold isExtension
  split
  · rename_i c rest htext
    exact iff_of_true rfl ⟨c, rest, htext⟩
  · rename_i hnone
    exact iff_of_false Bool.false_ne_true fun ⟨c, rest, htext⟩ => hnone c rest htext

/-- **A name that ends in an accepted extension** has an accepted extension exactly if one without a further dot stands
at the end of it. -/
theorem extension_mem_iff {extensions : List String} (haccepted : ∀ text ∈ extensions, isExtension text = true)
    {stem extension : String} (hstem : stem ≠ "") (hextension : extension ∈ extensions) :
    Path.extension ⟨0, [stem ++ extension]⟩ ∈ extensions ↔
      ∃ ending ∈ extensions, ending.toList <:+ extension.toList ∧ '.' ∉ ending.toList.tail := by
  constructor
  · intro hmem
    refine ⟨_, hmem, ?_⟩
    obtain ⟨c, rest, htext⟩ := isExtension_iff.mp (haccepted extension hextension)
    obtain ⟨front, tail, hsplit, hdot⟩ :=
      Path.exists_last_append (show '.' ∈ extension.toList from htext ▸ List.mem_cons_self ..)
    rw [Path.extension_append hstem hsplit hdot] at hmem ⊢
    rw [String.toList_ofList]
    by_cases htail : tail = []
    · rw [if_pos htail] at hmem
      exact absurd (haccepted _ hmem) (by decide)
    · rw [if_neg htail]
      exact ⟨⟨front, hsplit.symm⟩, hdot⟩
  · rintro ⟨ending, hending, ⟨front, hfront⟩, hdot⟩
    obtain ⟨c, rest, htext⟩ := isExtension_iff.mp (haccepted ending hending)
    rw [htext] at hfront hdot
    have hsame : String.ofList ('.' :: c :: rest) = ending := by
      rw [← htext, String.ofList_toList]
    rwa [Path.extension_append hstem hfront.symm hdot, if_neg (List.cons_ne_nil _ _), hsame]

end Config

namespace FileTree

variable {dir : FileTree} {config : Config} {ignored : List String → Bool}

/-- **A file with an accepted extension is found exactly if an accepted extension with a single dot stands at the end
of it.** Take any extensions that a configuration accepts, and a name that is put together from something and one of
them. The extension of such a name is among the accepted ones if and only if one of these, without a further dot,
stands at the end of the one that was taken; which is so if it has no further dot itself. A file of this name at the
root of a project without patterns and ignore files is found under the same condition. -/
theorem accepted_extension_found_iff {entries : Entries} {extensions : List String}
    (haccepted : Config.extensionsOf entries = .ok (.valid extensions)) {stem extension : String} (hstem : stem ≠ "")
    (hextension : extension ∈ extensions) :
    ('.' ∉ extension.toList.tail → Path.extension ⟨0, [stem ++ extension]⟩ ∈ extensions) ∧
    (Path.extension ⟨0, [stem ++ extension]⟩ ∈ extensions ↔
      ∃ ending ∈ extensions, ending.toList <:+ extension.toList ∧ '.' ∉ ending.toList.tail) ∧
    ∀ (tree dir : FileTree) (root : Path) (content : Bytes) (globals : List String) (nested : Bool), tree.Proper →
      tree.find? root = some dir → dir.get? [stem ++ extension] = some (.file content) →
      Ignoring.load tree root nested = .ok .nothing →
      ∃ files, tree.findSources root ⟨[], [], extensions, globals, nested⟩ = .ok files ∧
        ([stem ++ extension] ∈ files ↔
          ∃ ending ∈ extensions, ending.toList <:+ extension.toList ∧ '.' ∉ ending.toList.tail) := by
  have hmem := Config.extension_mem_iff (Config.isExtension_of_extensionsOf haccepted) hstem hextension
  refine ⟨fun hdot => hmem.mpr ⟨extension, hextension, List.suffix_rfl, hdot⟩, hmem, ?_⟩
  intro tree dir root content globals nested hproper hroot hfile hload
  refine ⟨_, findSources_of_load ⟨[], [], extensions, globals, nested⟩ hload, ?_⟩
  rw [mem_selectSources_iff hproper, hroot]
  simp only [Option.some.injEq, exists_eq_left', selected_singleton_iff, selects_of_no_patterns, hmem, hfile]
  exact ⟨fun h => h.2.1, fun h => ⟨⟨content, rfl⟩, h, rfl⟩⟩

/-- Without an ignore file at the root nothing is ignored. -/
theorem load_eq_nothing {tree : FileTree} {root : Path} (hroot : tree.find? root = some dir)
    (hnone : dir.get? [ignoreFileName] = none) : Ignoring.load tree root false = .ok .nothing := by
  have hread : tree.find? (root.join ⟨0, [ignoreFileName]⟩) = none := by
    rw [find?_join (by decide) fun other target hother hlink => ?_, hroot, Option.bind_some, hnone]
    obtain rfl := Option.some.inj (hroot.symm.trans hother)
    cases hnone.symm.trans hlink
  rw [Ignoring.load, if_neg (by decide), read, hread]

/-- A project that is one file, whose name has two dots. -/
def declarationProject : FileTree :=
  .directory [("a.d.ts", .file [])]

theorem declarationProject_proper : declarationProject.Proper := by
  refine proper_directory (by decide) (by decide) fun entry hentry => ?_
  obtain rfl := List.mem_singleton.mp hentry
  exact proper_file _

/-- The file is found if the end of its extension is accepted as well. -/
theorem accepted_extension_found_twofold :
    Config.extensionsOf [("extensions", .array [.string ".d.ts", .string ".ts"])] = .ok (.valid [".d.ts", ".ts"]) ∧
    ∃ files, declarationProject.findSources ⟨1, []⟩ ⟨[], [], [".d.ts", ".ts"], [], false⟩ = .ok files ∧
      ["a" ++ ".d.ts"] ∈ files := by
  have haccepted : Config.extensionsOf [("extensions", .array [.string ".d.ts", .string ".ts"])] =
      .ok (.valid [".d.ts", ".ts"]) := by
    rfl
  obtain ⟨-, -, hfound⟩ := accepted_extension_found_iff haccepted (show "a" ≠ "" by decide) (.head _)
  obtain ⟨files, hfiles, hmem⟩ := hfound declarationProject declarationProject ⟨1, []⟩ [] [] false
    declarationProject_proper (find?_top _) rfl (load_eq_nothing (find?_top _) rfl)
  refine ⟨haccepted, files, hfiles, hmem.mpr ⟨".ts", .tail _ (.head _), ?_, by decide⟩⟩
  exact ⟨['.', 'd'], rfl⟩

/-- The file is not found if that is missing, although its own extension is accepted. -/
theorem accepted_extension_not_found :
    Config.extensionsOf [("extensions", .array [.string ".d.ts"])] = .ok (.valid [".d.ts"]) ∧
    Path.extension ⟨0, ["a" ++ ".d.ts"]⟩ ∉ [".d.ts"] ∧
    ∃ files, declarationProject.findSources ⟨1, []⟩ ⟨[], [], [".d.ts"], [], false⟩ = .ok files ∧
      ["a" ++ ".d.ts"] ∉ files := by
  have hextension : Path.extension ⟨0, ["a" ++ ".d.ts"]⟩ ∉ [".d.ts"] := by
    decide +kernel
  refine ⟨rfl, hextension, _,
    findSources_of_load ⟨[], [], [".d.ts"], [], false⟩ (load_eq_nothing (find?_top _) rfl), fun hmem => ?_⟩
  obtain ⟨dir, -, hselected⟩ := (mem_selectSources_iff declarationProject_proper).mp hmem
  exact hextension hselected.extension

end FileTree

end LoggerLint
