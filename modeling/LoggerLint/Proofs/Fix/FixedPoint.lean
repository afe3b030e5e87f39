import LoggerLint.Proofs.Fix.History

/-!
# Fixing again

A run that ends before its last pass ends for a reason that its output keeps: there is nothing to fix, no
fix is accepted, or the next pass would be thrown away. A second run starts at that output with the same
reports, finds the same reason at once, and leaves everything as it is (`fix_again_changes_nothing`).
-/

namespace LoggerLint.Fix

variable {parse : Parser} {globals : List String} {path : String}

/-! ## Runs that stay where they start -/

/-- Where no pass can be made the loop stays, however many passes are left. -/
theorem loop_of_rests {left : Nat} {state : State} (hrests : Rests state.current state.reports) :
    (loop (fun _ => parse) globals path left state).1 = .ok state := by
  cases left with
  | zero => rfl
  | succ left =>
    rw [loop]
    by_cases hfix : state.reports.any (·.fixable) = true
    · rcases hrests with hnone | ⟨batch, happly, hzero⟩
      · rw [hfix] at hnone
        cases hnone
      · rw [if_pos hfix, happly]
        simp only [hzero, if_true]
    · rw [if_neg hfix]

theorem fix_of_rests {maxPasses : Nat} {source : Bytes} {first : Linted}
    (hlint : lint parse globals Rule.all source path = .ok first)
    (hrests : Rests source first.reports) :
    (fix parse globals maxPasses source path).outcome = .ok ⟨source, false, 0, 0, first.reports⟩ := by
  refine (fix_outcome_eq_ok_iff hlint).mpr ⟨_, loop_of_rests hrests, ?_⟩
  simp [State.result]

theorem fix_of_discards {left : Nat} {source : Bytes} {first : Linted}
    (hlint : lint parse globals Rule.all source path = .ok first)
    (hdiscards : Discards parse globals path source first.reports) :
    (fix parse globals (left + 1) source path).outcome = .ok ⟨source, false, 0, 1, first.reports⟩ := by
  refine (fix_outcome_eq_ok_iff hlint).mpr ⟨_, loop_succ_of_discards hdiscards, ?_⟩
  simp [State.result]

/-! ## What a run leaves -/

/-- A run that gives a result has linted its source, and the result is what the loop made of it. -/
theorem exists_loop_of_fix {maxPasses : Nat} {source : Bytes} {result : FixResult}
    (h : (fix parse globals maxPasses source path).outcome = .ok result) :
    ∃ first final, lint parse globals Rule.all source path = .ok first ∧
      (loop (fun _ => parse) globals path maxPasses ⟨source, first.reports, 0, 0⟩).1 = .ok final ∧
      final.result source = result := by
  rcases hlint : lint parse globals Rule.all source path with error | first
  · rw [fix_refused_iff.mpr hlint] at h
    cases h
  · obtain ⟨final, hloop, hresult⟩ := (fix_outcome_eq_ok_iff hlint).mp h
    exact ⟨first, final, rfl, hloop, hresult⟩

/-- The output lints, and its reports are the ones that remain. -/
theorem lint_output_of_fix {maxPasses : Nat} {source : Bytes} {result : FixResult}
    (h : (fix parse globals maxPasses source path).outcome = .ok result) :
    ∃ linted, lint parse globals Rule.all result.output path = .ok linted ∧
      linted.reports = result.remaining := by
  obtain ⟨first, final, hlint, hloop, rfl⟩ := exists_loop_of_fix h
  obtain ⟨kept, hist, -, -⟩ := loop_history hloop
  exact hist.lint_output ⟨first, hlint, rfl⟩

/-- A run that ends before its last pass ends where no pass can be made or kept. -/
theorem rests_or_discards_of_fix {maxPasses : Nat} {source : Bytes} {result : FixResult}
    (h : (fix parse globals maxPasses source path).outcome = .ok result)
    (hpasses : result.passes < maxPasses) :
    Rests result.output result.remaining ∨
      Discards parse globals path result.output result.remaining := by
  obtain ⟨first, final, -, hloop, rfl⟩ := exists_loop_of_fix h
  obtain ⟨kept, -, -, hend⟩ := loop_history hloop
  rcases hend with ⟨hcount, hlimit | ⟨-, hrests⟩⟩ | ⟨-, -, hdiscards⟩
  · -- every pass was made, so the count says so
    have hmade : final.passes = maxPasses := by
      rw [hcount, hlimit, Nat.zero_add]
    exact absurd hmade (Nat.ne_of_lt hpasses)
  · exact .inl hrests
  · exact .inr hdiscards

/-! ## The second run -/

/-- **Fixing reaches a fixed point.** If a run ends before its last pass, or leaves nothing that has a fix,
then a second run from its output changes nothing, applies nothing and leaves the same reports; all it may
do is to throw one pass away. -/
theorem fix_again_changes_nothing (parse : Parser) (globals : List String) (maxPasses : Nat)
    (source : Bytes) (path : String) (result : FixResult)
    (hresult : (fix parse globals maxPasses source path).outcome = .ok result)
    (hstop : result.passes < maxPasses ∨ result.remaining.any (·.fixable) = false) :
    ∃ passes ≤ 1, (fix parse globals maxPasses result.output path).outcome =
      .ok ⟨result.output, false, 0, passes, result.remaining⟩ := by
  obtain ⟨linted, hlint, hreports⟩ := lint_output_of_fix hresult
  have hend : Rests result.output linted.reports ∨ result.passes < maxPasses ∧
      Discards parse globals path result.output linted.reports := by
    rw [hreports]
    rcases hstop with hpasses | hnone
    · exact (rests_or_discards_of_fix hresult hpasses).imp_right fun h => ⟨hpasses, h⟩
    · exact .inl (.inl hnone)
  rw [← hreports]
  rcases hend with hrests | ⟨hpasses, hdiscards⟩
  · exact ⟨0, Nat.zero_le 1, fix_of_rests hlint hrests⟩
  · obtain ⟨left, rfl⟩ := Nat.exists_eq_add_one_of_ne_zero (Nat.ne_of_gt (Nat.zero_lt_of_lt hpasses))
    exact ⟨1, Nat.le_refl 1, fix_of_discards hlint hdiscards⟩

/-- Both runs over the file with one call make one pass and throw it away. -/
theorem fix_call_again :
    ∃ result, (fix callParser ["logger"] 3 callSource "a.ts").outcome = .ok result ∧
      result.passes = 1 ∧ result.remaining.any (·.fixable) = true ∧
      ∃ passes ≤ 1, (fix callParser ["logger"] 3 result.output "a.ts").outcome =
        .ok ⟨result.output, false, 0, passes, result.remaining⟩ := by
  obtain ⟨first, report, hlint, hreports, hedits⟩ := exists_lint_call
  have hdiscards := discards_call hedits
  rw [← hreports] at hdiscards
  have hfixable : first.reports.any (·.fixable) = true := by
    simp [hreports, Report.fixable, hedits]
  have hresult : (fix callParser ["logger"] 3 callSource "a.ts").outcome = .ok _ :=
    fix_of_discards hlint hdiscards
  have hpasses : 1 < 3 := by decide
  exact ⟨_, hresult, rfl, hfixable,
    fix_again_changes_nothing callParser ["logger"] 3 callSource "a.ts" _ hresult (.inl hpasses)⟩

end LoggerLint.Fix
