import LoggerLint.Lint
import LoggerLint.Proofs.Fix.Prologue
import LoggerLint.Proofs.Text.Position
import LoggerLint.Script.Program

/-!
# The order of reports

Reports are sorted twice: the rule sorts its calls by the offset at which they start, and a lint sorts the
reports of all rules by the line and the column of the name they point at, and then by the rule. Lines and
columns come in the order of the offsets they are worked out from (`Position.ofOffset_mono`). So where the
forbidden calls start with the name itself, the second sort finds nothing to move, not even among calls that
start at one offset, and the report with the prologue stays the first (`lint_keeps_order`).
-/

namespace LoggerLint

/-- Reports of one rule come in the order of the offsets of what they point at. -/
theorem Report.before_of_start_le {a b : Report} {source : Bytes} {left right : Node}
    (hleft : a.loc = .ofNode source left) (hright : b.loc = .ofNode source right)
    (hrule : a.ruleId = b.ruleId) (hle : left.start ≤ right.start) : a.before b = true := by
  have hline : a.loc.startLine = (Position.ofOffset source left.start).line := by rw [hleft]; rfl
  have hcol : a.loc.startCol = (Position.ofOffset source left.start).col := by rw [hleft]; rfl
  have hline' : b.loc.startLine = (Position.ofOffset source right.start).line := by rw [hright]; rfl
  have hcol' : b.loc.startCol = (Position.ofOffset source right.start).col := by rw [hright]; rfl
  have hmono : a.loc.startLine < b.loc.startLine ∨
      a.loc.startLine = b.loc.startLine ∧ a.loc.startCol ≤ b.loc.startCol := by
    rw [hline, hcol, hline', hcol']
    rcases Position.ofOffset_mono source hle with hlt | ⟨heq, hcols⟩
    · exact .inl (by omega)
    · exact .inr ⟨by omega, by omega⟩
  unfold Report.before
  split
  · exact decide_eq_true (by omega)
  · split
    · exact decide_eq_true (by omega)
    · exact decide_eq_true (hrule ▸ String.le_refl _)

namespace Console

/-- Reports come in the order of the names of their calls. -/
theorem reportAll_pairwise {found : List Call}
    (h : found.Pairwise (·.reference.site.node.start ≤ ·.reference.site.node.start)) (source : Bytes)
    (path : String) (lead : List Edit) :
    (reportAll source path lead found).Pairwise fun a b => a.before b = true := by
  have hbefore : ∀ (lead : List Edit) {a b : Call},
      a.reference.site.node.start ≤ b.reference.site.node.start →
      (report source path lead a).before (report source path [] b) = true :=
    fun lead _ _ hle => Report.before_of_start_le rfl rfl rfl hle
  cases h with
  | nil => exact .nil
  | @cons first rest hfirst hrest =>
    refine .cons ?_ (List.pairwise_map.mpr (hrest.imp (hbefore [])))
    intro other hother
    obtain ⟨call, hcall, rfl⟩ := List.mem_map.mp hother
    exact hbefore lead (hfirst call hcall)

section

variable {source : Bytes} {root : Node} {globals : List String}

/-- Where the forbidden calls start with the name, the calls come in the order of their names. -/
theorem reported_pairwise_name
    (hnames : ∀ use ∈ (ScopeTree.walk source root globals).2, ∀ node,
      Offends (.analyze source root globals) use node → use.site.node.start = node.start) :
    (reported source root globals).Pairwise
      (·.reference.site.node.start ≤ ·.reference.site.node.start) := by
  obtain ⟨placed, hplaced, hsorted, hcalls⟩ := exists_placed source root globals
  have hstart : ∀ p ∈ placed, p.2.reference.site.node.start = p.2.node.start := by
    rintro ⟨i, call⟩ hp
    obtain ⟨use, huse, hcall, hoffends⟩ := (hplaced i call).mp hp
    rw [reference_of_call? hcall]
    exact hnames use (List.mem_of_getElem? huse) call.node hoffends
  rw [← hcalls, List.pairwise_map]
  refine hsorted.imp_of_mem ?_
  intro a b ha hb hab
  rw [hstart a ha, hstart b hb]
  omega

/-- The prologue goes with the first report, of a file whose top does not bind the logger. -/
theorem prologueEdit_mem_edits_iff {path : String} {k : Nat} {report : Report}
    (h : (reports (.analyze source root globals) path)[k]? = some report) :
    prologueEdit source root path ∈ report.edits ↔
      k = 0 ∧ (ScopeTree.analyze source root globals).arena.resolve (some 1) Prologue.loggerName = none := by
  rw [reports_analyze, getElem?_reportAll] at h
  obtain ⟨call, -, rfl⟩ := Option.map_eq_some_iff.mp h
  simp only [Console.report, List.mem_append, List.mem_singleton, prologueEdit_ne_callEdit, or_false]
  rw [lead]
  rcases (ScopeTree.analyze source root globals).arena.resolve (some 1) Prologue.loggerName with _ | v
  · by_cases hk : k = 0
    · simp [hk]
    · simp [hk]
  · simp

end

/-- A source that is read has its tree analysed. -/
theorem eq_analyze_of_readScopes {parse : Parser} {globals : List String} {source : Bytes} {path : String}
    {tree : ScopeTree} (h : readScopes parse globals source path = .ok tree) :
    tree = .analyze source (parse source) globals := by
  unfold readScopes at h
  simp only at h
  split at h
  · cases h
  · split at h
    · cases h
    · exact (Except.ok.inj h).symm

/-- **The two sorts agree.** Let the names of the forbidden calls of a source stand at the starts of their
calls. Then a lint with all rules gives the reports of the rule as they come, and the prologue goes with the
first of them, unless the top of the file binds the logger. -/
theorem lint_keeps_order (parse : Parser) (globals : List String) (source : Bytes) (path : String)
    {tree : ScopeTree} (hread : readScopes parse globals source path = .ok tree)
    (hnames : ∀ use ∈ (ScopeTree.walk source (parse source) globals).2, ∀ node,
      Offends tree use node → use.site.node.start = node.start) :
    ∃ linted, lint parse globals Rule.all source path = .ok linted ∧
      linted.reports = reports tree path ∧
      ∀ k report, linted.reports[k]? = some report →
        (prologueEdit source (parse source) path ∈ report.edits ↔
          k = 0 ∧ tree.arena.resolve (some 1) Prologue.loggerName = none) := by
  obtain rfl := eq_analyze_of_readScopes hread
  have hsorted := reportAll_pairwise (reported_pairwise_name hnames) source path
    (lead source (parse source) globals path)
  rw [← reports_analyze] at hsorted
  have hall : Rule.all.flatMap (·.reports (.analyze source (parse source) globals) path) =
      reports (.analyze source (parse source) globals) path := List.flatMap_singleton ..
  have hlint : (lint parse globals Rule.all source path).map Linted.reports =
      .ok (reports (.analyze source (parse source) globals) path) := by
    rw [lint, hread, ← List.mergeSort_of_pairwise hsorted, ← hall]
    rfl
  obtain ⟨linted, hrun, hreports⟩ := exists_of_map_eq_ok hlint
  refine ⟨linted, hrun, hreports, ?_⟩
  intro k report hreport
  rw [hreports] at hreport
  exact prologueEdit_mem_edits_iff hreport

/-- A call inside another that stands on the lines above it, before one more. -/
def stackedSource : Bytes :=
  Utf8.encode "a;\n  console.warn(1,\n console.info(2));\nconsole.error(3)".toList

theorem lint_keeps_order_stacked :
    ∃ tree linted, readScopes Script.parse [] stackedSource "a.ts" = .ok tree ∧
      lint Script.parse [] Rule.all stackedSource "a.ts" = .ok linted ∧
      linted.reports = reports tree "a.ts" ∧ linted.reports.length = 3 ∧
      ∀ k report, linted.reports[k]? = some report →
        (prologueEdit stackedSource (Script.parse stackedSource) "a.ts" ∈ report.edits ↔ k = 0) := by
  -- all of these are read off one tree, so they are computed together
  have hfacts : (Script.parse stackedSource).errors.isEmpty = true ∧
      ((ScopeTree.walk stackedSource (Script.parse stackedSource) []).2.all fun use =>
        (call? stackedSource use).all fun call => use.site.node.start == call.node.start) = true ∧
      ((nativeUses (ScopeTree.walk stackedSource (Script.parse stackedSource) []).1
        (ScopeTree.walk stackedSource (Script.parse stackedSource) []).2).filterMap
          (call? stackedSource)).length = 3 ∧
      (ScopeTree.analyze stackedSource (Script.parse stackedSource) []).arena.resolve (some 1)
        Prologue.loggerName = none := by
    decide +kernel
  obtain ⟨herrors, hstarts, hcalls, hlogger⟩ := hfacts
  have hread : readScopes Script.parse [] stackedSource "a.ts" =
      .ok (.analyze stackedSource (Script.parse stackedSource) []) := by
    have hdecode : Utf8.decode stackedSource = .ok _ := Utf8.decode_eq_ok_iff.mpr rfl
    simp only [readScopes, hdecode, List.isEmpty_iff.mp herrors]
  have hnames : ∀ use ∈ (ScopeTree.walk stackedSource (Script.parse stackedSource) []).2, ∀ node,
      Offends (.analyze stackedSource (Script.parse stackedSource) []) use node →
        use.site.node.start = node.start := by
    intro use huse node hoffends
    obtain ⟨-, -, call, hcall, rfl⟩ := (offends_iff huse).mp hoffends
    have hstart := List.all_eq_true.mp hstarts use huse
    rw [hcall] at hstart
    exact beq_iff_eq.mp hstart
  obtain ⟨linted, hlint, hreports, hprologue⟩ :=
    lint_keeps_order Script.parse [] stackedSource "a.ts" hread hnames
  refine ⟨_, linted, hread, hlint, hreports, ?_, ?_⟩
  · rw [hreports, reports_analyze, length_reportAll, reported, calls, List.length_mergeSort, hcalls]
  · intro k report hreport
    rw [hprologue k report hreport]
    simp only [hlogger, and_true]

end Console

end LoggerLint
