import Mathlib
import LoggerLint.Fix.Run
import LoggerLint.Proofs.Console.Native
import LoggerLint.Proofs.Data.Outcome
import LoggerLint.Proofs.Fix.Patch

/-!
# The history of a fix

A run of fixes is a chain of passes that were kept, and a reason to stop. `History` is that chain,
stated without the loop: every pass applies the fixes of the reports it finds, and the changed source
lints again. The loop stops

* when no report has a fix, or no fix is accepted (`Rests`);
* when the next pass leaves a source that is refused (`Discards`); this pass counts, and nothing else
  of it is kept;
* when enough passes were made.

`loop_history` says that the loop follows a history up to one of these ends, and `loop_of_history` that
it follows every history. So the output is the last source that lints, the reports are the ones it
has, and the number of fixes is what the kept passes applied.
-/

namespace LoggerLint.Fix

/-! ## Passes and histories -/

/-- A pass over a source with these reports: there is something to fix, and some fix is accepted. -/
def Pass (source : Bytes) (reports : List Report) (batch : BatchOutcome) : Prop :=
  reports.any (·.fixable) = true ∧ Batch.apply source reports = .ok batch ∧ batch.applied ≠ 0

/-- No pass can be made: there is nothing to fix, or no fix is accepted. -/
def Rests (source : Bytes) (reports : List Report) : Prop :=
  reports.any (·.fixable) = false ∨
    ∃ batch, Batch.apply source reports = .ok batch ∧ batch.applied = 0

variable (parse : Parser) (globals : List String) (path : String)

/-- The next pass leaves a source that is refused. -/
def Discards (source : Bytes) (reports : List Report) : Prop :=
  ∃ batch error, Pass source reports batch ∧
    lint parse globals Rule.all batch.output path = .error error

/-- The passes that were kept, from a source and its reports to the output and those that remain. -/
inductive History : (source : Bytes) → (reports : List Report) → (kept : List BatchOutcome) →
    (output : Bytes) → (remaining : List Report) → Prop where
  /-- no pass was kept -/
  | start (source : Bytes) (reports : List Report) : History source reports [] source reports
  /-- a pass was kept: the source it left lints, and the run went on from there -/
  | pass {source output : Bytes} {reports remaining : List Report} {batch : BatchOutcome}
      {kept : List BatchOutcome} {next : Linted} (hpass : Pass source reports batch)
      (hlint : lint parse globals Rule.all batch.output path = .ok next)
      (hrest : History batch.output next.reports kept output remaining) :
      History source reports (batch :: kept) output remaining

/-- How many fixes passes applied. -/
def applied (kept : List BatchOutcome) : Nat :=
  (kept.map (·.applied)).sum

variable {parse globals path}

/-- A source that rests has no next pass, so none that could be thrown away. -/
theorem Rests.not_discards {source : Bytes} {reports : List Report} (hrests : Rests source reports) :
    ¬ Discards parse globals path source reports := by
  rintro ⟨batch, error, ⟨hfix, happly, happlied⟩, -⟩
  rcases hrests with hnone | ⟨batch', happly', hzero⟩
  · rw [hfix] at hnone
    cases hnone
  · rw [happly] at happly'
    obtain rfl := Except.ok.inj happly'
    exact happlied hzero

/-- What a history leaves lints, with the reports that remain, if what it started from does. -/
theorem History.lint_output {source output : Bytes} {reports remaining : List Report}
    {kept : List BatchOutcome} (hist : History parse globals path source reports kept output remaining)
    (hlint : ∃ linted, lint parse globals Rule.all source path = .ok linted ∧
      linted.reports = reports) :
    ∃ linted, lint parse globals Rule.all output path = .ok linted ∧ linted.reports = remaining := by
  induction hist with
  | start => exact hlint
  | pass _ hnext _ ih => exact ih ⟨_, hnext, rfl⟩

/-! ## One step of the loop -/

/-- What the loop can do with at least one pass left, when no fix fails: rest, throw a pass away, or
keep a pass and go on. -/
theorem loop_succ_cases {left : Nat} {state final : State}
    (h : (loop (fun _ => parse) globals path (left + 1) state).1 = .ok final) :
    (Rests state.current state.reports ∧ final = state) ∨
    (Discards parse globals path state.current state.reports ∧
      final = { state with passes := state.passes + 1 }) ∨
    (∃ batch next, Pass state.current state.reports batch ∧
      lint parse globals Rule.all batch.output path = .ok next ∧
      (loop (fun _ => parse) globals path left
        ⟨batch.output, next.reports, state.fixed + batch.applied, state.passes + 1⟩).1 =
          .ok final) := by
  rw [loop] at h
  by_cases hfix : state.reports.any (·.fixable) = true
  · rw [if_pos hfix] at h
    rcases happly : Batch.apply state.current state.reports with failure | batch
    · rw [happly] at h
      cases h
    · rw [happly] at h
      by_cases hzero : batch.applied = 0
      · simp only [hzero, if_true] at h
        exact .inl ⟨.inr ⟨batch, happly, hzero⟩, (Except.ok.inj h).symm⟩
      · simp only [hzero, if_false] at h
        have hpass : Pass state.current state.reports batch := ⟨hfix, happly, hzero⟩
        rcases hlint : lint parse globals Rule.all batch.output path with error | next
        · rw [hlint] at h
          exact .inr (.inl ⟨⟨batch, error, hpass, hlint⟩, (Except.ok.inj h).symm⟩)
        · rw [hlint] at h
          exact .inr (.inr ⟨batch, next, hpass, hlint, h⟩)
  · rw [if_neg hfix] at h
    have hnone : state.reports.any (·.fixable) = false := by
      simpa using hfix
    exact .inl ⟨.inl hnone, (Except.ok.inj h).symm⟩

/-- A pass that is kept is one round of the loop. -/
theorem loop_succ_of_pass {left : Nat} {state : State} {batch : BatchOutcome} {next : Linted}
    (hpass : Pass state.current state.reports batch)
    (hlint : lint parse globals Rule.all batch.output path = .ok next) :
    (loop (fun _ => parse) globals path (left + 1) state).1 =
      (loop (fun _ => parse) globals path left
        ⟨batch.output, next.reports, state.fixed + batch.applied, state.passes + 1⟩).1 := by
  obtain ⟨hfix, happly, happlied⟩ := hpass
  rw [loop, if_pos hfix, happly]
  simp only [happlied, if_false, hlint]

/-- A pass that is thrown away ends the loop; only its count is kept. -/
theorem loop_succ_of_discards {left : Nat} {state : State}
    (hdiscards : Discards parse globals path state.current state.reports) :
    (loop (fun _ => parse) globals path (left + 1) state).1 =
      .ok { state with passes := state.passes + 1 } := by
  obtain ⟨batch, error, ⟨hfix, happly, happlied⟩, hlint⟩ := hdiscards
  rw [loop, if_pos hfix, happly]
  simp only [happlied, if_false, hlint]

/-! ## The whole loop -/

/-- **The loop follows a history.** It ends where the kept passes lead; only the count of passes tells
of one that was thrown away. -/
theorem loop_history {left : Nat} {state final : State}
    (h : (loop (fun _ => parse) globals path left state).1 = .ok final) :
    ∃ kept, History parse globals path state.current state.reports kept final.current
        final.reports ∧
      final.fixed = state.fixed + applied kept ∧
      (final.passes = state.passes + kept.length ∧
          (kept.length = left ∨ kept.length < left ∧ Rests final.current final.reports) ∨
        final.passes = state.passes + kept.length + 1 ∧ kept.length < left ∧
          Discards parse globals path final.current final.reports) := by
  -- the passes left bound the kept ones, so the induction is on them
  induction left generalizing state with
  | zero =>
    obtain rfl : state = final := Except.ok.inj h
    exact ⟨[], .start _ _, rfl, .inl ⟨rfl, .inl rfl⟩⟩
  | succ left ih =>
    rcases loop_succ_cases h with ⟨hrests, rfl⟩ | ⟨hdiscards, rfl⟩ | ⟨batch, next, hpass, hlint, hrest⟩
    · exact ⟨[], .start _ _, rfl, .inl ⟨rfl, .inr ⟨Nat.succ_pos left, hrests⟩⟩⟩
    · exact ⟨[], .start _ _, rfl, .inr ⟨rfl, Nat.succ_pos left, hdiscards⟩⟩
    · obtain ⟨kept, hist, hfixed, hend⟩ := ih hrest
      dsimp only at hfixed hend
      refine ⟨batch :: kept, .pass hpass hlint hist, ?_, ?_⟩
      · simp only [hfixed, applied, List.map_cons, List.sum_cons]
        omega
      · simp only [List.length_cons]
        rcases hend with ⟨hpasses, hlimit | ⟨hlt, hrests⟩⟩ | ⟨hpasses, hlt, hdiscards⟩
        · exact .inl ⟨by omega, .inl (by omega)⟩
        · exact .inl ⟨by omega, .inr ⟨by omega, hrests⟩⟩
        · exact .inr ⟨by omega, by omega, hdiscards⟩

/-- **The loop follows every history**: with as many passes left as it has, it ends where it leads. -/
theorem loop_of_history {source output : Bytes} {reports remaining : List Report}
    {kept : List BatchOutcome} (hist : History parse globals path source reports kept output remaining)
    (fixed passes : Nat) :
    (loop (fun _ => parse) globals path kept.length ⟨source, reports, fixed, passes⟩).1 =
      .ok ⟨output, remaining, fixed + applied kept, passes + kept.length⟩ := by
  induction hist generalizing fixed passes with
  | start => rfl
  | @pass _ _ _ _ batch kept next hpass hlint _ ih =>
    rw [List.length_cons, loop_succ_of_pass hpass hlint, ih]
    simp only [applied, List.map_cons, List.sum_cons]
    congr 2 <;> omega

/-! ## The whole run -/

/-- The run of a source that lints is its loop. -/
theorem fix_outcome_of_lint {maxPasses : Nat} {source : Bytes} {first : Linted}
    (hlint : lint parse globals Rule.all source path = .ok first) :
    (fix parse globals maxPasses source path).outcome =
      ((loop (fun _ => parse) globals path maxPasses ⟨source, first.reports, 0, 0⟩).1.map
        (State.result source)).mapError .edit := by
  simp only [fix, runWith, hlint]
  rcases hloop : loop (fun _ => parse) globals path maxPasses ⟨source, first.reports, 0, 0⟩ with
    ⟨failure | final, log⟩ <;> rfl

theorem fix_outcome_eq_ok_iff {maxPasses : Nat} {source : Bytes} {first : Linted} {result : FixResult}
    (hlint : lint parse globals Rule.all source path = .ok first) :
    (fix parse globals maxPasses source path).outcome = .ok result ↔
      ∃ final, (loop (fun _ => parse) globals path maxPasses ⟨source, first.reports, 0, 0⟩).1 =
        .ok final ∧ final.result source = result := by
  rw [fix_outcome_of_lint hlint]
  rcases (loop (fun _ => parse) globals path maxPasses ⟨source, first.reports, 0, 0⟩).1 with
    failure | final
  · simp [Except.map, Except.mapError]
  · simp [Except.map, Except.mapError]

/-- A run is refused exactly when its source is, and for the same reason. -/
theorem fix_refused_iff {maxPasses : Nat} {source : Bytes} {error : SourceError} :
    (fix parse globals maxPasses source path).outcome = .error (.refused error) ↔
      lint parse globals Rule.all source path = .error error := by
  rcases hlint : lint parse globals Rule.all source path with cause | first
  · simp [fix, runWith, hlint]
  · rw [fix_outcome_of_lint hlint]
    rcases (loop (fun _ => parse) globals path maxPasses ⟨source, first.reports, 0, 0⟩).1 with
      failure | final
    · simp [Except.map, Except.mapError]
    · simp [Except.map, Except.mapError]

/-- A source that lints can be read. -/
theorem exists_readScopes_of_lint {source : Bytes} {linted : Linted}
    (hlint : lint parse globals Rule.all source path = .ok linted) :
    ∃ tree, readScopes parse globals source path = .ok tree := by
  obtain ⟨tree, hread, -⟩ := exists_of_map_eq_ok hlint
  exact ⟨tree, hread⟩

/-- **The contract of a fix.** It is refused exactly when its source is. Otherwise, whatever result it
gives, the output can be read, the remaining reports are the output's own, and `changed` tells whether
the output is another source. The kept passes lead from the source to the output; their fixes are the
ones that are counted, and the count of passes is theirs, with one more exactly when the last pass was
thrown away. A run that stops before that pass gives the same result. And a report with a fix remains
only if the limit is reached, or the next pass is thrown away, or no fix is accepted. -/
theorem fix_keeps_last_good_source (parse : Parser) (globals : List String) (maxPasses : Nat)
    (source : Bytes) (path : String) :
    (∀ error, (fix parse globals maxPasses source path).outcome = .error (.refused error) ↔
      lint parse globals Rule.all source path = .error error) ∧
    ∀ first result, lint parse globals Rule.all source path = .ok first →
      (fix parse globals maxPasses source path).outcome = .ok result →
      (∃ tree, readScopes parse globals result.output path = .ok tree) ∧
      (∃ linted, lint parse globals Rule.all result.output path = .ok linted ∧
        linted.reports = result.remaining) ∧
      (result.changed = true ↔ result.output ≠ source) ∧
      ∃ kept, History parse globals path source first.reports kept result.output result.remaining ∧
        result.fixed = applied kept ∧
        result.passes ≤ maxPasses ∧
        (result.passes = kept.length + 1 ∧
            (kept.length < maxPasses ∧ Discards parse globals path result.output result.remaining) ∨
          result.passes = kept.length ∧
            ¬ (kept.length < maxPasses ∧ Discards parse globals path result.output result.remaining)) ∧
        (fix parse globals kept.length source path).outcome =
          .ok { result with passes := kept.length } ∧
        (result.remaining.any (·.fixable) = true →
          result.passes = maxPasses ∨ Discards parse globals path result.output result.remaining ∨
            ∃ batch, Batch.apply result.output result.remaining = .ok batch ∧ batch.applied = 0) := by
  refine ⟨fun error => fix_refused_iff, fun first result hlint hresult => ?_⟩
  obtain ⟨final, hloop, rfl⟩ := (fix_outcome_eq_ok_iff hlint).mp hresult
  obtain ⟨kept, hist, hfixed, hend⟩ := loop_history hloop
  obtain ⟨linted, houtput, hreports⟩ := hist.lint_output ⟨first, hlint, rfl⟩
  have hagain : (fix parse globals kept.length source path).outcome =
      .ok { final.result source with passes := kept.length } := by
    refine (fix_outcome_eq_ok_iff hlint).mpr ⟨_, loop_of_history hist 0 0, ?_⟩
    simp only [State.result, hfixed, Nat.zero_add]
  simp only [Nat.zero_add] at hfixed hend
  refine ⟨exists_readScopes_of_lint houtput, ⟨linted, houtput, hreports⟩, ?_, kept, hist, hfixed, ?_, ?_,
    hagain, fun hfix => ?_⟩
  · simp [State.result]
  · show final.passes ≤ maxPasses
    rcases hend with ⟨hpasses, hlimit | ⟨hlt, -⟩⟩ | ⟨hpasses, hlt, -⟩ <;> omega
  · rcases hend with ⟨hpasses, hlimit | ⟨-, hrests⟩⟩ | ⟨hpasses, hlt, hdiscards⟩
    · exact .inr ⟨hpasses, fun ⟨hlt, _⟩ => absurd hlimit (Nat.ne_of_lt hlt)⟩
    · exact .inr ⟨hpasses, fun ⟨_, hdiscards⟩ => hrests.not_discards hdiscards⟩
    · exact .inl ⟨hpasses, hlt, hdiscards⟩
  · rcases hend with ⟨hpasses, hlimit | ⟨-, hnone | hstuck⟩⟩ | ⟨-, -, hdiscards⟩
    · exact .inl (hpasses.trans hlimit)
    · exact absurd (hfix.symm.trans hnone) (by simp)
    · exact .inr (.inr hstuck)
    · exact .inr (.inl hdiscards)

/-! ## A pass that is thrown away -/

/-- A file with one call. -/
def callSource : Bytes :=
  Utf8.encode "console.info(1)".toList

/-- Its tree. -/
def callRoot : Node :=
  ⟨{ kind := "program", start := 0, stop := 15 },
    [⟨{ kind := "call_expression", start := 0, stop := 15 },
      [Console.nestedMember 0 4,
        ⟨{ kind := "arguments", start := 12, stop := 15, field := some "arguments" },
          [⟨{ kind := "number", start := 13, stop := 14 }, []⟩]⟩]⟩]⟩

/-- A parser that can read this file and nothing else. -/
def callParser : Parser := fun source =>
  if source = callSource then callRoot else ⟨{ kind := "ERROR", start := 0, stop := 0 }, []⟩

/-- The edit that replaces the call. -/
def callFix : Edit :=
  ⟨0, 15, .ofString "moduleLogger.info(1)"⟩

/-- A file with one call, whose top binds the logger, has one report, which replaces the call. -/
theorem exists_lint_of_reported {parse : Parser} {globals : List String} {path : String} {source : Bytes}
    {chars : List Char} {edit : Edit} (hdecode : Utf8.decode source = .ok chars)
    (herrors : (parse source).errors = [])
    (hedits : (Console.reported source (parse source) globals).map (Console.callEdit source) = [edit])
    (hlead : Console.lead source (parse source) globals path = []) :
    ∃ first report, lint parse globals Rule.all source path = .ok first ∧
      first.reports = [report] ∧ report.edits = [edit] := by
  obtain ⟨call, hcall, hedit⟩ := List.map_eq_singleton_iff.mp hedits
  have hreports : Console.reports (.analyze source (parse source) globals) path =
      [Console.report source path [] call] := by
    rw [Console.reports_analyze, hlead, hcall]
    rfl
  have hread : readScopes parse globals source path =
      .ok (.analyze source (parse source) globals) := by
    simp only [readScopes, hdecode, herrors]
  refine ⟨_, Console.report source path [] call, congrArg (Except.map _) hread, ?_, ?_⟩
  · simp [Rule.all, Rule.noNativeConsole, hreports]
  · rw [← hedit]
    rfl

/-- The call has a report, which replaces it. -/
theorem exists_lint_call :
    ∃ first report, lint callParser ["logger"] Rule.all callSource "a.ts" = .ok first ∧
      first.reports = [report] ∧ report.edits = [callFix] := by
  have hreported : Console.reported callSource callRoot ["logger"] =
      (Console.nativeUses (ScopeTree.walk callSource callRoot ["logger"]).1
        (ScopeTree.walk callSource callRoot ["logger"]).2).filterMap (Console.call? callSource) :=
    List.mergeSort_of_pairwise (by decide +kernel)
  have hedits : (Console.reported callSource callRoot ["logger"]).map (Console.callEdit callSource) =
      [callFix] := by
    rw [hreported]
    decide +kernel
  have hlead : Console.lead callSource callRoot ["logger"] "a.ts" = [] := by decide +kernel
  have hparse : callParser callSource = callRoot := if_pos rfl
  exact exists_lint_of_reported (Utf8.decode_eq_ok_iff.mpr rfl) (by rw [hparse]; rfl)
    (by rw [hparse]; exact hedits) (by rw [hparse]; exact hlead)

/-- The pass over it replaces the call. -/
theorem pass_call {report : Report} (hedits : report.edits = [callFix]) :
    Pass callSource [report] ⟨Utf8.encode "moduleLogger.info(1)".toList, 1, 0⟩ := by
  have hfixable : report.fixable = true := by simp [Report.fixable, hedits]
  have hmerge : Edit.merge callSource [callFix] = .ok callFix :=
    Edit.merge_single (by decide) (by decide)
  have hwrite : Edit.apply callSource [callFix] = .ok (Utf8.encode "moduleLogger.info(1)".toList) :=
    Edit.apply_of_apart ⟨by simp, by simp [callFix], by simp [callFix, Text.ofString]⟩
  have happly : Batch.apply callSource [report] =
      .ok ⟨Utf8.encode "moduleLogger.info(1)".toList, 1, 0⟩ := by
    simp [Batch.apply, Batch.merged, hfixable, hedits, hmerge, Edit.inOrder, Batch.accept, hwrite,
      Except.map]
  exact ⟨by simp [hfixable], happly, Nat.one_ne_zero⟩

/-- Its fix leaves a source that the parser refuses. -/
theorem discards_call {report : Report}
    (hedits : report.edits = [callFix]) :
    Discards callParser ["logger"] "a.ts" callSource [report] := by
  have hdecode : Utf8.decode (Utf8.encode "moduleLogger.info(1)".toList) = .ok _ :=
    Utf8.decode_eq_ok_iff.mpr rfl
  have hparse : callParser (Utf8.encode "moduleLogger.info(1)".toList) =
      ⟨{ kind := "ERROR", start := 0, stop := 0 }, []⟩ := if_neg (by decide)
  refine ⟨_, ⟨"a.ts", ⟨1, 1⟩, .badSyntax⟩, pass_call hedits, ?_⟩
  simp only [lint, readScopes, hdecode, hparse]
  rfl

theorem fix_throws_pass_away :
    ∃ first result, lint callParser ["logger"] Rule.all callSource "a.ts" = .ok first ∧
      (fix callParser ["logger"] 3 callSource "a.ts").outcome = .ok result ∧
      ∃ kept, History callParser ["logger"] "a.ts" callSource first.reports kept result.output
          result.remaining ∧
        result.fixed = applied kept ∧ result.passes = kept.length + 1 ∧
        (fix callParser ["logger"] kept.length callSource "a.ts").outcome =
          .ok { result with passes := kept.length } := by
  obtain ⟨first, report, hlint, hreports, hedits⟩ := exists_lint_call
  have hdiscards := discards_call hedits
  rw [← hreports] at hdiscards
  have hresult : (fix callParser ["logger"] 3 callSource "a.ts").outcome = .ok _ :=
    (fix_outcome_eq_ok_iff hlint).mpr ⟨_, loop_succ_of_discards hdiscards, rfl⟩
  obtain ⟨-, -, -, kept, hist, hfixed, -, hpasses, hagain, -⟩ :=
    (fix_keeps_last_good_source callParser ["logger"] 3 callSource "a.ts").2 first _ hlint hresult
  refine ⟨first, _, hlint, hresult, kept, hist, hfixed, ?_, hagain⟩
  rcases hpasses with ⟨hpasses, -⟩ | ⟨hpasses, hkept⟩
  · exact hpasses
  · simp only [State.result] at hpasses hkept
    exact absurd ⟨by omega, hdiscards⟩ hkept

end LoggerLint.Fix
