import LoggerLint.Proofs.Fix.Merging
import Mathlib.Algebra.BigOperators.Group.List.Basic
import Mathlib.Algebra.Ring.Int.Defs
import Mathlib.Data.List.Nodup

/-!
# One edit after another

Edits are applied by one scan, which copies the source from wherever the last edit ended. The same can be said
without a moving position: a `Replacement` puts items in the place of a stretch of a list, and those of several
edits are carried out one after another, from the last to the first, so that no offset has moved when its turn
comes (`Replacement.applyBackwards`).

`apply_one_by_one` says that the two are the same for edits with distinct spans: they conflict exactly when
one of them, in order, starts before its predecessor ends, and otherwise what is written is what the single
replacements give. The order in which the edits are listed does not matter.
-/

namespace LoggerLint

/-! ## Replacing stretches of a list -/

/-- Items that take the place of a stretch of a list. -/
structure Replacement (α : Type) where
  /-- where the stretch starts -/
  start : Nat
  /-- where it ends -/
  stop : Nat
  /-- what stands there afterwards -/
  items : List α

namespace Replacement

variable {α : Type}

/-- Replace one stretch. -/
def apply (replacement : Replacement α) (list : List α) : List α :=
  list.take replacement.start ++ replacement.items ++ list.drop replacement.stop

/-- Replace one stretch after another, from the last one to the first one. -/
def applyBackwards (replacements : List (Replacement α)) (list : List α) : List α :=
  replacements.foldr apply list

/-- The stretches follow one another in a list of this length. -/
structure Apart (length : Nat) (replacements : List (Replacement α)) : Prop where
  /-- each one ends before the next one starts -/
  ordered : replacements.Pairwise fun a b => a.stop ≤ b.start
  /-- none is reversed, and none ends past the list -/
  inRange : ∀ replacement ∈ replacements,
    replacement.start ≤ replacement.stop ∧ replacement.stop ≤ length

variable {first : Replacement α} {rest replacements : List (Replacement α)} {list : List α}

theorem applyBackwards_cons (first : Replacement α) (rest : List (Replacement α)) (list : List α) :
    applyBackwards (first :: rest) list = first.apply (applyBackwards rest list) := rfl

theorem Apart.tail {length : Nat} (h : Apart length (first :: rest)) : Apart length rest :=
  ⟨(List.pairwise_cons.mp h.ordered).2, fun other hother => h.inRange other (.tail _ hother)⟩

/-- **What stands before all stretches stays.** -/
theorem take_applyBackwards {position : Nat} (hposition : ∀ r ∈ replacements, position ≤ r.start)
    (hle : position ≤ list.length) :
    (applyBackwards replacements list).take position = list.take position := by
  induction replacements with
  | nil => rfl
  | cons first rest ih =>
    have hrest := ih fun other hother => hposition other (.tail _ hother)
    have hfirst := hposition first (.head _)
    have hlength := congrArg List.length hrest
    rw [List.length_take, List.length_take] at hlength
    -- the first stretch starts at `position` or later, so cutting there does not reach it
    have hcut : position ≤ ((applyBackwards rest list).take first.start).length := by
      rw [List.length_take]
      omega
    calc (applyBackwards (first :: rest) list).take position
        = ((applyBackwards rest list).take first.start).take position := by
          rw [applyBackwards_cons, apply, List.append_assoc, List.take_append_of_le_length hcut]
      _ = (applyBackwards rest list).take position := by
          rw [List.take_take, Nat.min_eq_left hfirst]
      _ = list.take position := hrest

/-- The list still reaches up to the end of the first stretch when its turn comes. -/
theorem Apart.take_stop (h : Apart list.length (first :: rest)) :
    (applyBackwards rest list).take first.stop = list.take first.stop ∧
      first.stop ≤ (applyBackwards rest list).length := by
  have hstop := (h.inRange first (.head _)).2
  have htake := take_applyBackwards (List.pairwise_cons.mp h.ordered).1 hstop
  refine ⟨htake, ?_⟩
  have hlength := congrArg List.length htake
  rw [List.length_take, List.length_take] at hlength
  omega

/-- What stands before the first stretch is what stood there at the beginning. -/
theorem Apart.take_start (h : Apart list.length (first :: rest)) :
    (applyBackwards rest list).take first.start = list.take first.start := by
  obtain ⟨hforward, hstop⟩ := h.inRange first (.head _)
  refine take_applyBackwards (fun other hother => ?_) (Nat.le_trans hforward hstop)
  exact Nat.le_trans hforward ((List.pairwise_cons.mp h.ordered).1 other hother)

/-- Each replacement changes the length by what it puts in less what it takes out. -/
theorem length_applyBackwards (h : Apart list.length replacements) :
    ((applyBackwards replacements list).length : Int) =
      list.length + (replacements.map fun r => (r.items.length : Int) - (r.stop - r.start)).sum := by
  induction replacements with
  | nil => simp [applyBackwards]
  | cons first rest ih =>
    have hforward := (h.inRange first (.head _)).1
    have hreach := h.take_stop.2
    have hrest := ih h.tail
    have hcons : (applyBackwards (first :: rest) list).length =
        first.start + first.items.length + ((applyBackwards rest list).length - first.stop) := by
      rw [applyBackwards_cons, apply, List.length_append, List.length_append, List.length_take,
        List.length_drop, Nat.min_eq_left (Nat.le_trans hforward hreach)]
    rw [hcons, List.map_cons, List.sum_cons]
    omega

end Replacement

namespace Edit

/-! ## Edits as replacements -/

variable {source : Bytes} {edits other : List Edit}

/-- What an edit does to the bytes of a source. -/
def replacement (edit : Edit) : Replacement UInt8 :=
  ⟨edit.start, edit.stop, edit.bytes⟩

theorem apart_replacements (hordered : edits.Pairwise fun a b => a.stop ≤ b.start)
    (hrange : ∀ edit ∈ edits, edit.start ≤ edit.stop ∧ edit.stop ≤ source.length) :
    Replacement.Apart source.length (edits.map replacement) :=
  ⟨List.pairwise_map.mpr hordered, List.forall_mem_map.mpr hrange⟩

/-- **Copying through edits is replacing from the last to the first.** -/
theorem rewrite_eq_drop (h : Replacement.Apart source.length (edits.map replacement)) {position : Nat}
    (hposition : ∀ edit ∈ edits, position ≤ edit.start) :
    rewrite source position edits =
      (Replacement.applyBackwards (edits.map replacement) source).drop position := by
  induction edits generalizing position with
  | nil => rfl
  | cons edit rest ih =>
    have hstart := hposition edit (.head _)
    obtain ⟨hforward, hstop⟩ := h.inRange edit.replacement (.head _)
    have hnext : ∀ other ∈ rest, edit.stop ≤ other.start := by
      intro other hother
      exact (List.pairwise_cons.mp h.ordered).1 _ (List.mem_map_of_mem hother)
    have hcut : position ≤ (source.take edit.start).length := by
      rw [List.length_take]
      exact Nat.le_min.mpr ⟨hstart, Nat.le_trans hstart (Nat.le_trans hforward hstop)⟩
    have htake : (Replacement.applyBackwards (rest.map replacement) source).take edit.start =
        source.take edit.start :=
      h.take_start
    calc rewrite source position (edit :: rest)
        = slice source position edit.start ++ edit.bytes ++
            (Replacement.applyBackwards (rest.map replacement) source).drop edit.stop := by
          rw [rewrite, ih h.tail hnext]
      _ = (source.take edit.start ++ edit.bytes ++
            (Replacement.applyBackwards (rest.map replacement) source).drop edit.stop).drop position := by
          rw [List.append_assoc, List.append_assoc, List.drop_append_of_le_length hcut, slice]
      _ = (Replacement.applyBackwards ((edit :: rest).map replacement) source).drop position := by
          rw [← htake]
          rfl

/-! ## Collisions -/

/-- Some edit starts before its predecessor ends. -/
def Collides (edits : List Edit) : Prop :=
  ∃ i a b, edits[i]? = some a ∧ edits[i + 1]? = some b ∧ b.start < a.stop

theorem not_collides_nil : ¬Collides [] := by
  rintro ⟨i, a, b, ha, -⟩
  simp at ha

theorem collides_cons {edit : Edit} {rest : List Edit} :
    Collides (edit :: rest) ↔ (∃ next ∈ rest.head?, next.start < edit.stop) ∨ Collides rest := by
  constructor
  · rintro ⟨i, a, b, ha, hb, hlt⟩
    cases i with
    | zero =>
      obtain rfl := Option.some.inj ha
      exact .inl ⟨b, by simpa [List.head?_eq_getElem?] using hb, hlt⟩
    | succ i => exact .inr ⟨i, a, b, ha, hb, hlt⟩
  · rintro (⟨next, hnext, hlt⟩ | ⟨i, a, b, ha, hb, hlt⟩)
    · exact ⟨0, edit, next, rfl, by simpa [List.head?_eq_getElem?] using hnext, hlt⟩
    · exact ⟨i + 1, a, b, ha, hb, hlt⟩

instance decidableCollides : (edits : List Edit) → Decidable (Collides edits)
  | [] => .isFalse not_collides_nil
  | _ :: rest =>
    have := decidableCollides rest
    decidable_of_iff _ collides_cons.symm

/-- Where no edit starts before its predecessor ends, none starts before an earlier one ends. -/
theorem pairwise_of_not_collides (hforward : ∀ edit ∈ edits, edit.start ≤ edit.stop)
    (h : ¬Collides edits) : edits.Pairwise fun a b => a.stop ≤ b.start := by
  induction edits with
  | nil => exact .nil
  | cons edit rest ih =>
    rw [collides_cons, not_or] at h
    obtain ⟨hnext, hrest⟩ := h
    have hpairs := ih (fun other hother => hforward other (.tail _ hother)) hrest
    refine List.pairwise_cons.mpr ⟨?_, hpairs⟩
    cases rest with
    | nil => simp
    | cons next rest =>
      have hle : edit.stop ≤ next.start := by
        refine Nat.not_lt.mp fun hlt => hnext ⟨next, rfl, hlt⟩
      refine List.forall_mem_cons.mpr ⟨hle, fun later hlater => ?_⟩
      -- the next edit lies in between
      have hlast := (List.pairwise_cons.mp hpairs).1 later hlater
      exact Nat.le_trans hle (Nat.le_trans (hforward next (by simp)) hlast)

/-- A scan conflicts where an edit starts before its predecessor ends, or before the scan does. -/
theorem splice_conflicts_iff (hencodable : ∀ edit ∈ edits, edit.text.encode? ≠ none) (position : Nat) :
    (∃ cause, splice source position edits = .error (.conflict cause)) ↔
      (∃ first ∈ edits.head?, first.start < position) ∨ Collides edits := by
  induction edits generalizing position with
  | nil => simp [splice, not_collides_nil]
  | cons edit rest ih =>
    have hrest := ih (fun other hother => hencodable other (.tail _ hother)) edit.stop
    rw [collides_cons, ← hrest, splice]
    by_cases hstart : edit.start < position
    · simp [hstart]
    · rw [if_neg hstart, encode?_eq_some_bytes (hencodable edit (.head _))]
      rcases splice source edit.stop rest with failure | written
      · simp [Except.map, hstart]
      · simp [Except.map, hstart]

/-! ## Order -/

/-- Edits with distinct spans that come before one another are one. -/
theorem eq_of_before (hnodup : (edits.map fun edit => (edit.start, edit.stop)).Nodup) {a b : Edit}
    (ha : a ∈ edits) (hb : b ∈ edits) (hab : a.before b = true) (hba : b.before a = true) : a = b := by
  rw [before_iff] at hab hba
  refine List.inj_on_of_nodup_map hnodup ha hb ?_
  rw [Prod.mk.injEq]
  omega

/-- **Edits with distinct spans can be put in order in one way.** -/
theorem inOrder_eq_of_perm (hnodup : (edits.map fun edit => (edit.start, edit.stop)).Nodup)
    (hperm : other.Perm edits) : inOrder other = inOrder edits := by
  have hordered : (inOrder other).Perm (inOrder edits) :=
    (List.mergeSort_perm other before).trans (hperm.trans (List.mergeSort_perm edits before).symm)
  refine hordered.eq_of_pairwise (fun a b ha hb => ?_) (pairwise_inOrder other) (pairwise_inOrder edits)
  exact eq_of_before hnodup (hperm.mem_iff.mp (mem_inOrder.mp ha)) (mem_inOrder.mp hb)

/-- Put in order, edits with distinct spans are strictly in order. -/
theorem pairwise_lt_inOrder (hnodup : (edits.map fun edit => (edit.start, edit.stop)).Nodup) :
    (inOrder edits).Pairwise fun a b => a.start < b.start ∨ a.start = b.start ∧ a.stop < b.stop := by
  have hspans : (inOrder edits).Pairwise fun a b => (a.start, a.stop) ≠ (b.start, b.stop) :=
    List.pairwise_map.mp (((List.mergeSort_perm edits before).map _).nodup_iff.mpr hnodup)
  refine (pairwise_inOrder edits).imp₂ (fun a b hbefore hne => ?_) hspans
  rw [before_iff] at hbefore
  rw [ne_eq, Prod.mk.injEq] at hne
  omega

/-! ## The result -/

/-- Edits that follow one another, once they are in order, are applied one after another. -/
theorem apply_eq_applyBackwards (h : Apart (inOrder edits))
    (hreplace : Replacement.Apart source.length ((inOrder edits).map replacement)) :
    apply source edits = .ok (Replacement.applyBackwards ((inOrder edits).map replacement) source) := by
  have hdrop := rewrite_eq_drop hreplace fun edit _ => Nat.zero_le edit.start
  rw [List.drop_zero] at hdrop
  have hordered : inOrder (inOrder edits) = inOrder edits := inOrder_of_pairwise (pairwise_inOrder edits)
  calc apply source edits
      = apply source (inOrder edits) := by rw [apply, apply, hordered]
    _ = .ok (rewrite source 0 (inOrder edits)) := apply_of_apart h
    _ = .ok (Replacement.applyBackwards ((inOrder edits).map replacement) source) := by rw [hdrop]

/-- Edits that do not collide follow one another. -/
theorem apart_of_not_collides
    (hrange : ∀ edit ∈ edits, edit.start ≤ edit.stop ∧ edit.stop ≤ source.length)
    (hencodable : ∀ edit ∈ edits, edit.text.encode? ≠ none) (h : ¬Collides (inOrder edits)) :
    Apart (inOrder edits) ∧ Replacement.Apart source.length ((inOrder edits).map replacement) := by
  have hrange' : ∀ edit ∈ inOrder edits, edit.start ≤ edit.stop ∧ edit.stop ≤ source.length := by
    intro edit hedit
    exact hrange edit (mem_inOrder.mp hedit)
  have hpairs := pairwise_of_not_collides (fun edit hedit => (hrange' edit hedit).1) h
  refine ⟨⟨hpairs, fun edit hedit => (hrange' edit hedit).1, fun edit hedit => ?_⟩,
    apart_replacements hpairs hrange'⟩
  exact hencodable edit (mem_inOrder.mp hedit)

/-- **Edits are applied as if one after another.** Take edits with distinct spans, none of which is reversed or
ends past the source, and whose texts can be written. There is one order of them by start and end. In it they
conflict exactly when some edit starts before its predecessor ends; otherwise what is written is the source
with the single spans replaced, from the last edit to the first, and its length is that of the source, changed
by each edit. The same edits listed otherwise give the same, be it bytes or a failure. -/
theorem apply_one_by_one (source : Bytes) (edits : List Edit)
    (hrange : ∀ edit ∈ edits, edit.start ≤ edit.stop ∧ edit.stop ≤ source.length)
    (hencodable : ∀ edit ∈ edits, edit.text.encode? ≠ none)
    (hnodup : (edits.map fun edit => (edit.start, edit.stop)).Nodup) :
    (inOrder edits).Perm edits ∧
    ((inOrder edits).Pairwise fun a b => a.start < b.start ∨ a.start = b.start ∧ a.stop < b.stop) ∧
    ((∃ cause, apply source edits = .error (.conflict cause)) ↔ Collides (inOrder edits)) ∧
    (¬Collides (inOrder edits) → ∃ output, apply source edits = .ok output ∧
      output = Replacement.applyBackwards ((inOrder edits).map replacement) source ∧
      (output.length : Int) =
        source.length + (edits.map fun edit => (edit.bytes.length : Int) - (edit.stop - edit.start)).sum) ∧
    ∀ other, other.Perm edits → apply source other = apply source edits := by
  have hperm : (inOrder edits).Perm edits := List.mergeSort_perm edits before
  refine ⟨hperm, pairwise_lt_inOrder hnodup, ?_, fun h => ?_, fun other hother => ?_⟩
  · have hordered : ∀ edit ∈ inOrder edits, edit.text.encode? ≠ none := by
      intro edit hedit
      exact hencodable edit (mem_inOrder.mp hedit)
    have hsplice := @splice_conflicts_iff source _ hordered 0
    simp only [Nat.not_lt_zero, and_false, exists_false, false_or] at hsplice
    rw [← hsplice, apply]
    rcases splice source 0 (inOrder edits) with failure | written
    · simp [Except.map]
    · simp [Except.map]
  · obtain ⟨hapart, hreplace⟩ := apart_of_not_collides hrange hencodable h
    refine ⟨_, apply_eq_applyBackwards hapart hreplace, rfl, ?_⟩
    rw [Replacement.length_applyBackwards hreplace, List.map_map]
    exact congrArg _ (hperm.map _).sum_eq
  · rw [apply, apply, inOrder_eq_of_perm hnodup hother]

/-- Edits that touch are applied in any order of the list; one more, across the start of another, collides. -/
theorem apply_one_by_one_touching :
    (∀ edit ∈ touchingEdits, edit.start ≤ edit.stop ∧ edit.stop ≤ touchingSource.length) ∧
    (∀ edit ∈ touchingEdits, edit.text.encode? ≠ none) ∧
    (touchingEdits.map fun edit => (edit.start, edit.stop)).Nodup ∧
    ¬Collides (inOrder touchingEdits) ∧
    apply touchingSource touchingEdits = .ok (Utf8.encode "aiybXd".toList) ∧
    apply touchingSource touchingEdits.reverse = apply touchingSource touchingEdits ∧
    ∃ cause, apply touchingSource (⟨0, 2, []⟩ :: touchingEdits) = .error (.conflict cause) := by
  have hrange : ∀ edit ∈ touchingEdits, edit.start ≤ edit.stop ∧ edit.stop ≤ touchingSource.length := by
    decide
  have hencodable : ∀ edit ∈ touchingEdits, edit.text.encode? ≠ none := by decide +kernel
  have hnodup : (touchingEdits.map fun edit => (edit.start, edit.stop)).Nodup := by decide
  have hapart : ¬Collides (inOrder touchingEdits) := by
    rw [inOrder_touchingEdits]
    decide
  obtain ⟨-, -, -, hwritten, hperm⟩ :=
    apply_one_by_one touchingSource touchingEdits hrange hencodable hnodup
  obtain ⟨output, happly, houtput, -⟩ := hwritten hapart
  have hreplaced : output = Utf8.encode "aiybXd".toList := by
    rw [houtput, inOrder_touchingEdits]
    decide +kernel
  have hcollides : Collides (inOrder (⟨0, 2, []⟩ :: touchingEdits)) := by
    rw [inOrder_cons, inOrder_touchingEdits]
    decide
  have hconflict := (apply_one_by_one touchingSource (⟨0, 2, []⟩ :: touchingEdits)
    (List.forall_mem_cons.mpr ⟨by decide, hrange⟩) (List.forall_mem_cons.mpr ⟨by decide, hencodable⟩)
    (by decide)).2.2.1.mpr hcollides
  exact ⟨hrange, hencodable, hnodup, hapart, hreplaced ▸ happly, hperm _ (List.reverse_perm _), hconflict⟩

end Edit

end LoggerLint
