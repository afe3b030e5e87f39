/-!
# Entries under names

The variables of a scope and the contents of a directory are lists of entries under names. A look-up finds
the first entry of a name, so where the names are distinct it finds every entry.
-/

namespace LoggerLint

variable {α β : Type} {name : String}

theorem mem_of_lookup {entries : List (String × α)} {a : α} (h : entries.lookup name = some a) :
    (name, a) ∈ entries := by
  obtain ⟨before, after, rfl, -⟩ := List.lookup_eq_some_iff.mp h
  simp

/-- Where names are distinct, every entry is found under its name. -/
theorem lookup_of_mem {entries : List (String × α)} (hnames : (entries.map Prod.fst).Nodup) {a : α}
    (h : (name, a) ∈ entries) : entries.lookup name = some a := by
  induction entries with
  | nil => cases h
  | cons entry rest ih =>
    obtain ⟨key, value⟩ := entry
    rw [List.map_cons, List.nodup_cons] at hnames
    rw [List.lookup_cons]
    rcases List.mem_cons.mp h with heq | hrest
    · obtain ⟨rfl, rfl⟩ := Prod.mk.inj heq
      simp
    · have hne : name ≠ key := by
        rintro rfl
        exact hnames.1 (List.mem_map.mpr ⟨(name, a), hrest, rfl⟩)
      rw [beq_false_of_ne hne]
      exact ih hnames.2 hrest

/-- A change of all values changes what is found. -/
theorem lookup_map_values (change : String → α → β) (entries : List (String × α)) :
    (entries.map fun entry => (entry.1, change entry.1 entry.2)).lookup name =
      (entries.lookup name).map (change name) := by
  induction entries with
  | nil => rfl
  | cons entry rest ih =>
    obtain ⟨key, value⟩ := entry
    rw [List.map_cons, List.lookup_cons, List.lookup_cons]
    by_cases hkey : name = key
    · subst hkey
      simp
    · rw [beq_false_of_ne hkey]
      exact ih

end LoggerLint
