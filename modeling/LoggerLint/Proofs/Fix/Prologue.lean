import LoggerLint.Proofs.Fix.FixedPoint
import LoggerLint.Proofs.Fix.Writable
import LoggerLint.Proofs.Scope.Imports
import LoggerLint.Script.Program

/-!
# The prologue is inserted at most once

A file that imports the shared logger binds its name at the top, so no report of it inserts the prologue
(`Console.edits_of_imports`). A pass carries out the edits of the reports it accepts and no others
(`Batch.apply_appliedEdits`). So a pass that inserts the prologue is the last one that does, as long as the
parser finds the inserted import in what later passes start from (`prologue_inserted_at_most_once`).
-/

namespace LoggerLint

/-! ## The edits of a pass -/

namespace MergedFix

variable {source : Bytes}

/-- Of ordered fixes, those that start no earlier than the last accepted one ends. -/
def accept : (lastStop : Nat) → List (MergedFix source) → List (MergedFix source)
  | _, [] => []
  | lastStop, fix :: rest =>
    if fix.edit.start < lastStop then accept lastStop rest else fix :: accept fix.edit.stop rest

/-- Fixes are accepted like their merged edits. -/
theorem map_edit_accept (last : Nat) (fixes : List (MergedFix source)) :
    (accept last fixes).map (·.edit) = Batch.accept last (fixes.map (·.edit)) := by
  induction fixes generalizing last with
  | nil => rfl
  | cons fix rest ih =>
    rw [accept, List.map_cons, Batch.accept]
    split
    · exact ih last
    · rw [List.map_cons, ih]

theorem accept_sublist (last : Nat) (fixes : List (MergedFix source)) :
    (accept last fixes).Sublist fixes := by
  induction fixes generalizing last with
  | nil => exact .slnil
  | cons fix rest ih =>
    rw [accept]
    split
    · exact (ih last).cons fix
    · exact (ih fix.edit.stop).cons_cons fix

end MergedFix

namespace Batch

/-- The edits that a pass carries out: all those of the reports whose fixes it accepts. -/
def appliedEdits (source : Bytes) (reports : List Report) : List Edit :=
  (MergedFix.accept 0 ((reports.filterMap (MergedFix.ofReport? source)).mergeSort
    MergedFix.before)).flatMap (·.report.edits)

/-- **What a pass writes is what these edits write.** -/
theorem apply_appliedEdits {source : Bytes} {reports : List Report} {batch : BatchOutcome}
    (h : apply source reports = .ok batch) :
    Edit.apply source (appliedEdits source reports) = .ok batch.output := by
  rcases hmerged : merged source reports with failure | fixes
  · simp [apply, hmerged] at h
  · obtain ⟨accepted, skipped, -, hmap, hapart, -, happly⟩ := exists_accepted hmerged
    have hsame : (MergedFix.accept 0 ((reports.filterMap (MergedFix.ofReport? source)).mergeSort
        MergedFix.before)).map (·.edit) = accepted.map (·.edit) := by
      rw [MergedFix.map_edit_accept, map_edit_mergeSort, ← (merged_eq_ok hmerged).1, hmap]
    have hapart' : MergedFix.Apart (MergedFix.accept 0
        ((reports.filterMap (MergedFix.ofReport? source)).mergeSort MergedFix.before)) := by
      have hedits : (accepted.map (·.edit)).Pairwise fun a b => a.stop ≤ b.start :=
        List.pairwise_map.mpr hapart
      rw [← hsame] at hedits
      exact List.pairwise_map.mp hedits
    rw [appliedEdits, MergedFix.apply_edits hapart', hsame, ← MergedFix.apply_edits hapart]
    rw [happly] at h
    rcases hwrite : Edit.apply source (accepted.flatMap (·.report.edits)) with failure | output
    · rw [hwrite] at h
      cases h
    · rw [hwrite] at h
      rw [hwrite, ← Except.ok.inj h]

/-- Every edit of a pass is one of a report. -/
theorem exists_report_of_mem_appliedEdits {source : Bytes} {reports : List Report} {edit : Edit}
    (h : edit ∈ appliedEdits source reports) : ∃ report ∈ reports, edit ∈ report.edits := by
  obtain ⟨fix, hfix, hedit⟩ := List.mem_flatMap.mp h
  have hmem := List.mem_mergeSort.mp ((MergedFix.accept_sublist _ _).subset hfix)
  obtain ⟨report, hreport, hof⟩ := List.mem_filterMap.mp hmem
  rw [MergedFix.report_of_ofReport? hof] at hedit
  exact ⟨report, hreport, hedit⟩

end Batch

/-! ## Reports of a file that imports the logger -/

namespace Console

theorem head?_ofString_append {first : String} {p : CodePoint}
    (h : (Text.ofString first).head? = some p) (rest : String) :
    (Text.ofString (first ++ rest)).head? = some p := by
  rw [Text.ofString, String.toList_append, Text.ofChars, List.map_append, List.head?_append]
  exact (congrArg (Option.or · _) h).trans rfl

/-- The prologue starts with an import, … -/
theorem head?_prologueEdit (source : Bytes) (root : Node) (path : String) :
    (prologueEdit source root path).text.head? = some (.scalar 'i') := by
  have himport : (Text.ofString "import \x7b ").head? = some (.scalar 'i') := by decide
  unfold prologueEdit Prologue.render
  simp only [String.append_assoc]
  exact head?_ofString_append himport _

/-- … and a replacement with the module logger. -/
theorem head?_callEdit (source : Bytes) (call : Call) :
    (callEdit source call).text.head? = some (.scalar 'm') := by
  have hlogger : (Text.ofString Prologue.moduleLoggerName).head? = some (.scalar 'm') := by decide
  simp only [callEdit, Call.replacement, String.append_assoc, List.append_assoc]
  rw [List.head?_append, head?_ofString_append hlogger]
  rfl

theorem prologueEdit_ne_callEdit (source : Bytes) (root : Node) (path : String) (call : Call) :
    prologueEdit source root path ≠ callEdit source call := by
  intro h
  have hhead := head?_callEdit source call
  rw [← h, head?_prologueEdit] at hhead
  exact absurd hhead (by decide)

theorem edits_of_mem_reportAll {source : Bytes} {path : String} {found : List Call} {report : Report}
    (h : report ∈ reportAll source path [] found) :
    ∃ call ∈ found, report.edits = [callEdit source call] := by
  cases found with
  | nil => cases h
  | cons first rest =>
    rcases List.mem_cons.mp h with rfl | h
    · exact ⟨first, .head _, rfl⟩
    · obtain ⟨call, hcall, rfl⟩ := List.mem_map.mp h
      exact ⟨call, .tail _ hcall, rfl⟩

variable {source : Bytes} {root : Node}

theorem lead_of_imports (h : Imports source root Prologue.loggerName) (globals : List String)
    (path : String) : lead source root globals path = [] :=
  if_pos (ScopeTree.isSome_resolve_of_imports (by decide) h globals)

theorem loggerIsBound_of_imports (h : Imports source root Prologue.loggerName) (globals : List String) :
    ∃ top, (ScopeTree.analyze source root globals).arena.top? = some top ∧
      loggerIsBound (ScopeTree.analyze source root globals).arena top = true := by
  obtain ⟨top, htop, hmodule, -⟩ := references_resolve source root globals
  refine ⟨top, htop, ?_⟩
  rw [loggerIsBound, hmodule]
  exact ScopeTree.isSome_resolve_of_imports (by decide) h globals

/-- **Where the logger is imported, a report replaces its call and does nothing else.** -/
theorem edits_of_imports (h : Imports source root Prologue.loggerName) {globals : List String}
    {path : String} {report : Report} (hreport : report ∈ reports (.analyze source root globals) path) :
    ∃ call ∈ reported source root globals, report.edits = [callEdit source call] := by
  rw [reports_analyze, lead_of_imports h] at hreport
  exact edits_of_mem_reportAll hreport

end Console

/-! ## Passes that insert the prologue -/

namespace Fix

variable (parse : Parser) (globals : List String) (path : String)

/-- Does the pass over a source insert the prologue? -/
def insertsPrologue (source : Bytes) : Bool :=
  match lint parse globals Rule.all source path with
  | .ok linted =>
    decide (Console.prologueEdit source (parse source) path ∈ Batch.appliedEdits source linted.reports)
  | .error _ => false

/-- The sources that passes start from: the first one, and what each pass but the last leaves. -/
def starts : (source : Bytes) → (kept : List BatchOutcome) → List Bytes
  | _, [] => []
  | source, batch :: kept => source :: starts batch.output kept

variable {parse globals path}

/-- A pass over a source that imports the logger inserts no prologue. -/
theorem insertsPrologue_of_imports {source : Bytes}
    (h : Imports source (parse source) Prologue.loggerName) :
    insertsPrologue parse globals path source = false := by
  rw [insertsPrologue]
  split
  · rename_i linted hlint
    refine decide_eq_false fun hmem => ?_
    obtain ⟨report, hreport, hedit⟩ := Batch.exists_report_of_mem_appliedEdits hmem
    obtain ⟨-, -, hreports⟩ := mem_reports_of_lint hlint
    rw [hreports, Console.lead_of_imports h] at hreport
    obtain ⟨call, -, hedits⟩ := Console.edits_of_mem_reportAll hreport
    rw [hedits, List.mem_singleton] at hedit
    exact Console.prologueEdit_ne_callEdit _ _ _ _ hedit
  · rfl

/-- If a pass that inserts the prologue leaves every later one a source that imports the logger, then no
two passes insert it. -/
theorem countP_insertsPrologue_le_one {sources : List Bytes}
    (h : sources.Pairwise fun earlier later => insertsPrologue parse globals path earlier = true →
      Imports later (parse later) Prologue.loggerName) :
    sources.countP (insertsPrologue parse globals path) ≤ 1 := by
  induction sources with
  | nil => exact Nat.zero_le 1
  | cons source rest ih =>
    obtain ⟨hfirst, hrest⟩ := List.pairwise_cons.mp h
    by_cases hinserts : insertsPrologue parse globals path source = true
    · -- this one is the last that does
      have hnone : rest.countP (insertsPrologue parse globals path) = 0 := by
        refine List.countP_eq_zero.mpr fun later hlater => ?_
        rw [insertsPrologue_of_imports (hfirst later hlater hinserts)]
        exact Bool.false_ne_true
      rw [List.countP_cons_of_pos hinserts, hnone]
    · rw [List.countP_cons_of_neg hinserts]
      exact ih hrest

/-- **The prologue is inserted at most once.** A file that imports the logger, by whatever form of import
and whatever else stands in it, binds the logger's name at its top, and each of its reports replaces one
call and does nothing else. A run follows a history of passes that were kept, each of which writes the
edits of the reports it accepts. If after a pass that inserts the prologue the parser finds the import in
what every later pass starts from, then at most one pass inserts the prologue. -/
theorem prologue_inserted_at_most_once (parse : Parser) (globals : List String) (path : String) :
    (∀ source root, Imports source root Prologue.loggerName →
      (∃ top, (ScopeTree.analyze source root globals).arena.top? = some top ∧
        Console.loggerIsBound (ScopeTree.analyze source root globals).arena top = true) ∧
      ∀ report ∈ Console.reports (.analyze source root globals) path,
        ∃ call ∈ Console.reported source root globals,
          report.edits = [Console.callEdit source call] ∧
          Console.prologueEdit source root path ∉ report.edits) ∧
    (∀ source reports batch, Batch.apply source reports = .ok batch →
      Edit.apply source (Batch.appliedEdits source reports) = .ok batch.output) ∧
    (∀ maxPasses source result, (fix parse globals maxPasses source path).outcome = .ok result →
      ∃ first kept, lint parse globals Rule.all source path = .ok first ∧
        History parse globals path source first.reports kept result.output result.remaining ∧
        result.fixed = applied kept) ∧
    ∀ source first kept output remaining, lint parse globals Rule.all source path = .ok first →
      History parse globals path source first.reports kept output remaining →
      ((starts source kept).Pairwise fun earlier later =>
        insertsPrologue parse globals path earlier = true →
          Imports later (parse later) Prologue.loggerName) →
      (starts source kept).countP (insertsPrologue parse globals path) ≤ 1 := by
  refine ⟨fun source root himports => ⟨Console.loggerIsBound_of_imports himports globals, ?_⟩,
    fun source reports batch => Batch.apply_appliedEdits, ?_,
    fun source first kept output remaining _ _ => countP_insertsPrologue_le_one⟩
  · intro report hreport
    obtain ⟨call, hcall, hedits⟩ := Console.edits_of_imports himports hreport
    refine ⟨call, hcall, hedits, ?_⟩
    rw [hedits, List.mem_singleton]
    exact Console.prologueEdit_ne_callEdit source root path call
  · intro maxPasses source result hresult
    obtain ⟨first, final, hlint, hloop, rfl⟩ := exists_loop_of_fix hresult
    obtain ⟨kept, hist, hfixed, -⟩ := loop_history hloop
    refine ⟨first, kept, hlint, hist, ?_⟩
    rw [State.result, hfixed, Nat.zero_add]

/-! ## A run of two passes -/

/-- A call with a template that spells a substitution behind a backslash. -/
def escapedSource : Bytes :=
  Utf8.encode "console.info(\x60\\$\x7bconsole.info(1)\x7d\x60)".toList

/-- The edit that replaces the call, after which the template has the substitution. -/
def escapedFix : Edit :=
  ⟨0, 35, .ofString "moduleLogger.info(\x60$\x7bconsole.info(1)\x7d\x60)"⟩

/-- The edit that replaces the call in the substitution. -/
def substitutedFix : Edit :=
  ⟨115, 130, .ofString "moduleLogger.info(1)"⟩

/-- What the first pass leaves. -/
def substitutedSource : Bytes :=
  Utf8.encode ((Prologue.render "a.ts").toList ++
    "moduleLogger.info(\x60$\x7bconsole.info(1)\x7d\x60)".toList)

/-- What the second pass leaves. -/
def mendedSource : Bytes :=
  Utf8.encode ((Prologue.render "a.ts").toList ++
    "moduleLogger.info(\x60$\x7bmoduleLogger.info(1)\x7d\x60)".toList)

/-- The pass over a source with one report carries out its fix. -/
theorem pass_of_merge {source : Bytes} {report : Report} {fix : Edit}
    (hmerge : Edit.merge source report.edits = .ok fix) (htext : fix.text.encode? ≠ none) :
    ∃ batch, Pass source [report] batch ∧ batch.output = Edit.rewrite source 0 [fix] := by
  have hfixable : report.fixable = true := by
    rcases hedits : report.edits with _ | ⟨edit, rest⟩
    · simp [hedits, Edit.merge, Edit.inOrder] at hmerge
    · simp [Report.fixable, hedits]
  have hmerged : Batch.merged source [report] = .ok [fix] :=
    Batch.merged_of_map_merge (by simpa using hfixable) (by simpa using hmerge)
  have hforward := (Edit.within_of_merge hmerge).1
  have hapart : Edit.Apart [fix] :=
    ⟨List.pairwise_singleton _ _, by simpa using hforward, by simpa using htext⟩
  refine ⟨_, ⟨by simp [hfixable], Batch.apply_of_merged hmerged ?_ hapart, Nat.one_ne_zero⟩, rfl⟩
  simp [Batch.accept, Edit.inOrder]

/-- The first source has one report, which inserts the prologue and replaces the call. -/
theorem exists_lint_escaped :
    ∃ first report fix, lint Script.parse [] Rule.all escapedSource "a.ts" = .ok first ∧
      first.reports = [report] ∧
      report.edits = [Console.prologueEdit escapedSource (Script.parse escapedSource) "a.ts", escapedFix] ∧
      Edit.merge escapedSource report.edits = .ok fix ∧ fix.text.encode? ≠ none ∧
      Edit.rewrite escapedSource 0 [fix] = substitutedSource := by
  have hlint : (lint Script.parse [] Rule.all escapedSource "a.ts").toOption.map
      (·.reports.map (·.edits)) =
        some [[Console.prologueEdit escapedSource (Script.parse escapedSource) "a.ts", escapedFix]] := by
    decide +kernel
  obtain ⟨first, hfirst, hedits⟩ := exists_of_toOption_map hlint
  obtain ⟨report, hreport, hedits⟩ := List.map_eq_singleton_iff.mp hedits
  have hprologue : Console.prologueEdit escapedSource (Script.parse escapedSource) "a.ts" =
      ⟨0, 0, .ofString (Prologue.render "a.ts")⟩ := by
    decide +kernel
  have hapart : Edit.Apart [⟨0, 0, .ofString (Prologue.render "a.ts")⟩, escapedFix] :=
    ⟨by decide, by decide, by simp [escapedFix, Text.ofString]⟩
  have hstop : escapedFix.stop ≤ escapedSource.length := by
    decide
  obtain ⟨fix, hmerge, -, -, htext, hrewrite⟩ := Edit.merge_pair hapart hstop ⟨[], by decide⟩
  refine ⟨first, report, fix, hfirst, hreport, hedits, ?_, htext, ?_⟩
  · rw [hedits, hprologue]
    exact hmerge
  · rw [hrewrite]
    decide +kernel

/-- The second one imports the logger, and has one report, which replaces the call in the substitution. -/
theorem exists_lint_substituted :
    Imports substitutedSource (Script.parse substitutedSource) Prologue.loggerName ∧
    ∃ next report, lint Script.parse [] Rule.all substitutedSource "a.ts" = .ok next ∧
      next.reports = [report] ∧ Edit.merge substitutedSource report.edits = .ok substitutedFix := by
  -- both are read off one tree, so they are computed together
  have hread : Imports substitutedSource (Script.parse substitutedSource) Prologue.loggerName ∧
      (lint Script.parse [] Rule.all substitutedSource "a.ts").toOption.map
        (·.reports.map (·.edits)) = some [[substitutedFix]] := by
    decide +kernel
  obtain ⟨himports, hlint⟩ := hread
  obtain ⟨next, hnext, hedits⟩ := exists_of_toOption_map hlint
  obtain ⟨report, hreport, hedits⟩ := List.map_eq_singleton_iff.mp hedits
  refine ⟨himports, next, report, hnext, hreport, ?_⟩
  rw [hedits]
  exact Edit.merge_single (by decide) (by decide +kernel)

/-- The first of two passes inserts the prologue, and the second one finds its import. -/
theorem prologue_inserted_once_escaped :
    ∃ first kept output remaining, lint Script.parse [] Rule.all escapedSource "a.ts" = .ok first ∧
      History Script.parse [] "a.ts" escapedSource first.reports kept output remaining ∧
      starts escapedSource kept = [escapedSource, substitutedSource] ∧ output = mendedSource ∧
      insertsPrologue Script.parse [] "a.ts" escapedSource = true ∧
      Imports substitutedSource (Script.parse substitutedSource) Prologue.loggerName ∧
      (starts escapedSource kept).countP (insertsPrologue Script.parse [] "a.ts") ≤ 1 := by
  obtain ⟨first, report, fix, hfirst, hreport, hedits, hmerge, htext, hwritten⟩ := exists_lint_escaped
  obtain ⟨himports, next, report', hnext, hreport', hmerge'⟩ := exists_lint_substituted
  have hlint : (lint Script.parse [] Rule.all mendedSource "a.ts").toOption.map
      (·.reports.map (·.edits)) = some [] := by
    decide +kernel
  obtain ⟨last, hlast, -⟩ := exists_of_toOption_map hlint
  have hwritten' : Edit.rewrite substitutedSource 0 [substitutedFix] = mendedSource := by
    decide +kernel
  obtain ⟨batch, hpass, houtput⟩ := pass_of_merge hmerge htext
  obtain ⟨batch', hpass', houtput'⟩ := pass_of_merge hmerge' (by simp [substitutedFix, Text.ofString])
  rw [hwritten] at houtput
  rw [hwritten'] at houtput'
  rw [← hreport] at hpass
  rw [← hreport', ← houtput] at hpass'
  rw [← houtput] at hnext
  rw [← houtput'] at hlast
  have hist : History Script.parse [] "a.ts" escapedSource first.reports [batch, batch'] batch'.output
      last.reports :=
    .pass hpass hnext (.pass hpass' hlast (.start _ _))
  have hstarts : starts escapedSource [batch, batch'] = [escapedSource, substitutedSource] := by
    rw [starts, starts, starts, houtput]
  have hinserts : insertsPrologue Script.parse [] "a.ts" escapedSource = true := by
    simp [insertsPrologue, hfirst, hreport, Batch.appliedEdits, MergedFix.ofReport?_of_ok hmerge,
      MergedFix.accept, hedits]
  have hlater : (starts escapedSource [batch, batch']).Pairwise fun earlier later =>
      insertsPrologue Script.parse [] "a.ts" earlier = true →
        Imports later (Script.parse later) Prologue.loggerName := by
    rw [hstarts]
    exact List.pairwise_pair.mpr fun _ => himports
  exact ⟨first, _, _, _, hfirst, hist, hstarts, houtput', hinserts, himports,
    (prologue_inserted_at_most_once Script.parse [] "a.ts").2.2.2 _ _ _ _ _ hfirst hist hlater⟩

end Fix

end LoggerLint
