import LoggerLint.Text.Position

/-!
# Lines and columns

`Position.ofOffset` reads a source from its start. Here it is said from the offset: the line counts the line
feeds before it, and the column counts on from where its line starts (`ofOffset_eq`). One byte further on, the
position is the start of the next line or the next column (`ofOffset_succ`), so positions come in the order of
their offsets (`ofOffset_mono`).
-/

namespace LoggerLint.Position

/-- Where the line of an offset starts: right after the last line feed before it, or else with the source. -/
def lineStart (source : Bytes) : (offset : Nat) → Nat
  | 0 => 0
  | offset + 1 => if source[offset]? = some lineFeed then offset + 1 else lineStart source offset

/-- The order of positions: by line, and then by column. -/
def NotAfter (p q : Position) : Prop :=
  p.line < q.line ∨ p.line = q.line ∧ p.col ≤ q.col

theorem measure_append_singleton (bytes : Bytes) (b : UInt8) :
    measure (bytes ++ [b]) =
      if b = lineFeed then ((measure bytes).1 + 1, 0) else ((measure bytes).1, (measure bytes).2 + 1) := by
  rw [measure, List.foldl_append]
  rfl

@[simp]
theorem ofOffset_zero (source : Bytes) : ofOffset source 0 = ⟨1, 1⟩ := by
  simp [ofOffset, measure]

/-- **One byte further on** stands the start of the next line, or the next column. -/
theorem ofOffset_succ (source : Bytes) (offset : Nat) :
    ofOffset source (offset + 1) =
      if source[offset]? = some lineFeed then ⟨(ofOffset source offset).line + 1, 1⟩
      else ⟨(ofOffset source offset).line, (ofOffset source offset).col + 1⟩ := by
  by_cases hlt : offset < source.length
  · have htake : source.take (offset + 1) = source.take offset ++ [source[offset]] :=
      List.take_succ_eq_append_getElem hlt
    have hover : offset - source.length = 0 := by omega
    have hover' : offset + 1 - source.length = 0 := by omega
    simp only [ofOffset, htake, measure_append_singleton, hover, hover', List.getElem?_eq_getElem hlt,
      Option.some.injEq]
    split
    · rfl
    · rfl
  · -- past the end there are no more line feeds
    have hnone : source[offset]? = none := List.getElem?_eq_none (by omega)
    have hover : offset + 1 - source.length = offset - source.length + 1 := by omega
    simp only [ofOffset, List.take_of_length_le (show source.length ≤ offset by omega),
      List.take_of_length_le (show source.length ≤ offset + 1 by omega), hnone, hover, reduceCtorEq, if_false]
    rfl

theorem lineStart_le (source : Bytes) (offset : Nat) : lineStart source offset ≤ offset := by
  induction offset with
  | zero => exact Nat.le_refl 0
  | succ offset ih =>
    rw [lineStart]
    split
    · exact Nat.le_refl _
    · exact Nat.le_succ_of_le ih

/-- **The line of an offset counts the line feeds before it; its column counts on from where the line starts.** -/
theorem ofOffset_eq (source : Bytes) (offset : Nat) :
    ofOffset source offset =
      ⟨(source.take offset).count lineFeed + 1, offset - lineStart source offset + 1⟩ := by
  induction offset with
  | zero => simp [lineStart]
  | succ offset ih =>
    have hle := lineStart_le source offset
    rw [ofOffset_succ, ih, List.take_add_one, List.count_append, lineStart]
    rcases source[offset]? with _ | b
    · simp only [reduceCtorEq, if_false, Option.toList_none, List.count_nil, Nat.add_zero]
      rw [Nat.sub_add_comm hle]
    · by_cases hb : b = lineFeed
      · subst hb
        simp
      · simp only [Option.some.injEq, hb, if_false, Option.toList_some, List.count_singleton]
        rw [Nat.sub_add_comm hle]
        simp [hb]

namespace NotAfter

variable {p q r : Position}

theorem refl (p : Position) : NotAfter p p :=
  .inr ⟨rfl, Nat.le_refl _⟩

theorem trans (h : NotAfter p q) (h' : NotAfter q r) : NotAfter p r := by
  unfold NotAfter at *
  omega

end NotAfter

/-- **Positions come in the order of their offsets**, wherever the line feeds stand. -/
theorem ofOffset_mono (source : Bytes) {a b : Nat} (h : a ≤ b) :
    NotAfter (ofOffset source a) (ofOffset source b) := by
  induction h with
  | refl => exact .refl _
  | @step b _ ih =>
    refine ih.trans ?_
    rw [ofOffset_succ]
    split
    · exact .inl (Nat.lt_succ_self _)
    · exact .inr ⟨rfl, Nat.le_succ _⟩

end LoggerLint.Position
