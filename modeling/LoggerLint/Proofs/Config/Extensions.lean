import LoggerLint.Project
import LoggerLint.Proofs.Data.Outcome

/-!
# The extensions of a configuration

A configuration that was read has been checked, and one that was not read is the usual one. Either way
every extension in it is a dot with something behind it (`Config.isExtension_of_load`), so a name without
an extension is never the name of a source file.
-/

namespace LoggerLint

/-! ## Checked data -/

namespace Checked

variable {α β : Type}

/-- A value comes out of a function and an argument that are values. -/
theorem seq_eq_valid {f : Checked (α → β)} {a : Checked α} {b : β} (h : f.seq a = .valid b) :
    ∃ g x, f = .valid g ∧ a = .valid x ∧ g x = b := by
  cases f with
  | invalid problems => cases h
  | valid g =>
    cases a with
    | invalid problems => cases h
    | valid x => exact ⟨g, x, rfl, rfl, valid.inj h⟩

theorem within_eq_valid {step : Step} {a : Checked α} {x : α} (h : a.within step = .valid x) :
    a = .valid x := by
  cases a with
  | invalid problems => cases h
  | valid y => exact h

end Checked

namespace Config

/-! ## Reading extensions -/

theorem isExtension_of_usual : ∀ text ∈ ({} : Config).extensions, isExtension text := by
  decide

theorem isExtension_of_extensionList {items : List Value} {extensions : List String}
    (h : extensionList items = .ok (.valid extensions)) : ∀ text ∈ extensions, isExtension text := by
  fun_induction extensionList items generalizing extensions with
  | case1 =>
    cases h
    nofun
  | case2 text rest hgood ih =>
    obtain ⟨checked, hrest, hchecked⟩ := exists_of_bind_eq_ok h
    obtain ⟨g, others, hg, rfl, hcons⟩ := Checked.seq_eq_valid (Except.ok.inj hchecked)
    obtain rfl := Checked.valid.inj hg
    subst hcons
    exact List.forall_mem_cons.mpr ⟨hgood, ih hrest⟩
  | case3 text rest hbad => cases h
  | case4 => cases h

theorem isExtension_of_extensionsOf {entries : Entries} {extensions : List String}
    (h : extensionsOf entries = .ok (.valid extensions)) : ∀ text ∈ extensions, isExtension text := by
  unfold extensionsOf at h
  split at h
  · cases h
    exact isExtension_of_usual
  · cases h
    exact isExtension_of_usual
  · rename_i items _
    obtain ⟨checked, hitems, hchecked⟩ := exists_of_bind_eq_ok h
    obtain rfl := Checked.within_eq_valid (Except.ok.inj hchecked)
    exact isExtension_of_extensionList hitems
  · cases h

end Config

end LoggerLint
