import LoggerLint.Proofs.Syntax.Sites
import LoggerLint.Proofs.Text.Malformed
import Mathlib.Data.List.Basic

/-!
# Places that could not be read

`Node.errors` looks for the outermost errors of a tree and does not enter subtrees without errors. Nothing is lost by
that: a subtree that is passed over has nothing to list (`errors_eq`), so the walk finds what a walk through the
whole tree finds (`errors_eq_errorsEverywhere`). In terms of the sites of the tree, it lists exactly the errors that
lie within no other error, in document order (`errors_eq_filter`), and the first of them is the first error of the
whole tree (`head?_errors`).

A text is refused for its syntax if and only if its tree holds an error anywhere, and the place that is told is that
of the first one (`errors_exact`).
-/

namespace LoggerLint

/-- The site is an error and lies within no other one. -/
def Site.isOutermostError (site : Site) : Bool :=
  site.node.isError && !site.above.any Node.isError

namespace Node

mutual

/-- The outermost errors at or below a node, in document order, found by a walk that enters every subtree. -/
def errorsEverywhere : Node → List Node
  | ⟨label, children⟩ =>
    if isError ⟨label, children⟩ then [⟨label, children⟩] else errorsEverywhereInAll children

/-- The outermost errors at or below the nodes, found by a walk that enters every subtree. -/
def errorsEverywhereInAll : List Node → List Node
  | [] => []
  | node :: rest => node.errorsEverywhere ++ errorsEverywhereInAll rest

end

/-- What holds of a node if it holds of its children holds of every node. -/
theorem of_children {P : Node → Prop} (hP : ∀ node, (∀ child ∈ node.children, P child) → P node) :
    (node : Node) → P node
  | ⟨label, children⟩ => hP ⟨label, children⟩ fun child (_ : child ∈ children) => of_children hP child

/-! ## One node at a time -/

theorem anyHasError_eq_any (nodes : List Node) : anyHasError nodes = nodes.any hasError := by
  induction nodes with
  | nil => rfl
  | cons node rest ih => rw [anyHasError, List.any_cons, ih]

theorem hasError_eq (node : Node) : node.hasError = (node.isError || node.children.any hasError) := by
  cases node with
  | mk label children =>
    rw [hasError, anyHasError_eq_any]
    rfl

theorem errorsOfAll_eq_flatMap (nodes : List Node) : errorsOfAll nodes = nodes.flatMap errors := by
  induction nodes with
  | nil => rfl
  | cons node rest ih => rw [errorsOfAll, List.flatMap_cons, ih]

theorem errors_of_isError {node : Node} (h : node.isError = true) : node.errors = [node] := by
  cases node with
  | mk label children =>
    rw [errors]
    exact if_pos h

theorem errors_of_not_hasError {node : Node} (h : node.hasError = false) : node.errors = [] := by
  obtain ⟨hself, -⟩ := Bool.or_eq_false_iff.mp ((hasError_eq node).symm.trans h)
  cases node with
  | mk label children =>
    rw [errors, h]
    exact if_neg (Bool.not_eq_true _ ▸ hself)

/-- **Nothing is lost by passing over a subtree**: where a node has no error, its children have none to list. -/
theorem errors_eq (node : Node) :
    node.errors = if node.isError then [node] else node.children.flatMap errors := by
  split
  · exact errors_of_isError ‹_›
  · rename_i hself
    rcases hbelow : node.hasError with _ | _
    · have hchildren : ∀ child ∈ node.children, child.errors = [] := by
        rw [hasError_eq, Bool.or_eq_false_iff, List.any_eq_false] at hbelow
        exact fun child hchild => errors_of_not_hasError (Bool.not_eq_true _ ▸ hbelow.2 child hchild)
      rw [errors_of_not_hasError hbelow, List.flatMap_eq_nil_iff.mpr hchildren]
    · cases node with
      | mk label children =>
        rw [errors, hbelow, if_pos rfl, errorsOfAll_eq_flatMap]
        exact if_neg hself

theorem errorsEverywhereInAll_eq_flatMap (nodes : List Node) :
    errorsEverywhereInAll nodes = nodes.flatMap errorsEverywhere := by
  induction nodes with
  | nil => rfl
  | cons node rest ih => rw [errorsEverywhereInAll, List.flatMap_cons, ih]

theorem errorsEverywhere_eq (node : Node) :
    node.errorsEverywhere = if node.isError then [node] else node.children.flatMap errorsEverywhere := by
  cases node with
  | mk label children =>
    rw [errorsEverywhere, errorsEverywhereInAll_eq_flatMap]
    rfl

/-! ## The whole tree -/

/-- A walk through the whole tree finds the same errors. -/
theorem errors_eq_errorsEverywhere (node : Node) : node.errors = node.errorsEverywhere := by
  induction node using of_children with
  | hP node ih =>
    rw [errors_eq, errorsEverywhere_eq, List.flatMap_congr ih]

/-- There is an error at or below a node if and only if one of the sites there is an error. -/
theorem hasError_iff (above : List Node) (node : Node) :
    node.hasError = true ↔ ∃ site ∈ sitesBelow above node, site.node.isError = true := by
  induction node using of_children generalizing above with
  | hP node ih =>
    rw [hasError_eq, Bool.or_eq_true, List.any_eq_true, sitesBelow_eq, List.exists_mem_cons_iff]
    refine or_congr_right ?_
    constructor
    · rintro ⟨child, hchild, herror⟩
      obtain ⟨site, hsite, hself⟩ := (ih child hchild (node :: above)).mp herror
      exact ⟨site, List.mem_flatMap.mpr ⟨child, hchild, hsite⟩, hself⟩
    · rintro ⟨site, hsite, hself⟩
      obtain ⟨child, hchild, hsite⟩ := List.mem_flatMap.mp hsite
      exact ⟨child, hchild, (ih child hchild (node :: above)).mpr ⟨site, hsite, hself⟩⟩

/-- Below an error nothing is an outermost error. Elsewhere those are what is listed, in the same order. -/
theorem map_filter_sitesBelow (above : List Node) (node : Node) :
    ((sitesBelow above node).filter Site.isOutermostError).map Site.node =
      if above.any isError then [] else node.errors := by
  induction node using of_children generalizing above with
  | hP node ih =>
    have hbelow : ((node.children.flatMap (sitesBelow (node :: above))).filter
        Site.isOutermostError).map Site.node =
          if node.isError || above.any isError then [] else node.children.flatMap errors := by
      rw [List.filter_flatMap, List.map_flatMap, List.flatMap_congr fun child hchild =>
        ih child hchild (node :: above), List.any_cons]
      split
      · exact List.flatMap_eq_nil_iff.mpr fun _ _ => rfl
      · rfl
    rw [sitesBelow_eq, List.filter_cons, Site.isOutermostError]
    rcases hself : node.isError with _ | _
    · rw [Bool.false_and, if_neg Bool.false_ne_true, hbelow, hself, Bool.false_or, errors_eq, hself,
        if_neg Bool.false_ne_true]
    · rcases habove : above.any isError with _ | _
      · rw [Bool.not_false, Bool.and_self, if_pos rfl, List.map_cons, hbelow, hself, Bool.true_or, if_pos rfl,
          if_neg Bool.false_ne_true, errors_of_isError hself]
      · rw [Bool.not_true, Bool.and_false, if_neg Bool.false_ne_true, hbelow, hself, Bool.true_or,
          if_pos rfl, if_pos rfl]

/-- **Exactly the errors that lie within no other error are listed**, once for each place and in document order. -/
theorem errors_eq_filter (root : Node) :
    root.errors = (root.sites.filter Site.isOutermostError).map Site.node :=
  (map_filter_sitesBelow [] root).symm

theorem findSome?_congr_of_mem {α β : Type} {f g : α → Option β} {items : List α}
    (h : ∀ item ∈ items, f item = g item) : items.findSome? f = items.findSome? g := by
  induction items with
  | nil => rfl
  | cons first rest ih =>
    obtain ⟨hfirst, hrest⟩ := List.forall_mem_cons.mp h
    rw [List.findSome?_cons, List.findSome?_cons, hfirst, ih hrest]

theorem head?_errors_eq (above : List Node) (node : Node) :
    node.errors.head? = ((sitesBelow above node).find? (·.node.isError)).map Site.node := by
  induction node using of_children generalizing above with
  | hP node ih =>
    rw [errors_eq, sitesBelow_eq, List.find?_cons]
    rcases hself : node.isError with _ | _
    · rw [if_neg Bool.false_ne_true, List.head?_flatMap, List.find?_flatMap, List.map_findSome?]
      exact findSome?_congr_of_mem fun child hchild => ih child hchild (node :: above)
    · rfl

/-- **The first error that is listed is the first one in document order**, among all errors of the tree. -/
theorem head?_errors (root : Node) :
    root.errors.head? = (root.sites.find? (·.node.isError)).map Site.node :=
  head?_errors_eq [] root

end Node

/-! ## Sources with errors -/

/-- A text is refused if its tree has errors, and told is the place of the first one that is listed. -/
theorem readScopes_of_wellFormed (parse : Parser) (globals : List String) {source : Bytes} (path : String)
    (h : Utf8.WellFormed source) :
    readScopes parse globals source path = match (parse source).errors.head? with
      | some first => .error ⟨path, .ofOffset source first.start, .badSyntax⟩
      | none => .ok (.analyze source (parse source) globals) := by
  obtain ⟨chars, hchars⟩ := Utf8.exists_decode_iff.mpr h
  rw [readScopes, hchars]
  dsimp only
  rcases (parse source).errors with _ | ⟨first, rest⟩
  · rfl
  · rfl

/-- **The search for errors is exact, although it does not enter every subtree.** A node is told to have an error
if and only if it is one or a node below it is. What the search lists are the errors of the tree that lie within no
other error, each place once and in document order, just as a walk through the whole tree would list them.

So a text is refused for its syntax if and only if an error stands anywhere in its tree, and the place that is told
is where the first one in document order starts. -/
theorem errors_exact (parse : Parser) (globals : List String) (source : Bytes) (path : String) :
    (∀ root : Node,
      (root.hasError = true ↔ ∃ site ∈ root.sites, site.node.isError = true) ∧
      root.errors = (root.sites.filter Site.isOutermostError).map Site.node ∧
      root.errors = root.errorsEverywhere) ∧
    (Utf8.WellFormed source →
      ((∃ error, readScopes parse globals source path = .error error ∧ error.fault.reason = "syntax error") ↔
        ∃ site ∈ (parse source).sites, site.node.isError = true) ∧
      ∀ error, readScopes parse globals source path = .error error →
        ∃ site, (parse source).sites.find? (·.node.isError) = some site ∧
          error = ⟨path, .ofOffset source site.node.start, .badSyntax⟩) := by
  refine ⟨fun root => ⟨root.hasError_iff [], root.errors_eq_filter, root.errors_eq_errorsEverywhere⟩, ?_⟩
  intro htext
  have hread := readScopes_of_wellFormed parse globals path htext
  rw [Node.head?_errors] at hread
  rcases hfirst : (parse source).sites.find? (·.node.isError) with _ | site
  · have hnone := List.find?_eq_none.mp hfirst
    rw [hfirst] at hread
    have hok : ∀ error, readScopes parse globals source path ≠ .error error := by
      intro error herror
      cases hread.symm.trans herror
    refine ⟨⟨fun ⟨error, herror, _⟩ => absurd herror (hok error), ?_⟩,
      fun error herror => absurd herror (hok error)⟩
    rintro ⟨site, hsite, hself⟩
    exact absurd hself (hnone site hsite)
  · rw [hfirst] at hread
    refine ⟨⟨fun _ => ⟨site, List.mem_of_find?_eq_some hfirst, ?_⟩, fun _ => ⟨_, hread, rfl⟩⟩, ?_⟩
    · exact List.find?_some (p := fun other : Site => other.node.isError) hfirst
    · intro error herror
      exact ⟨site, hfirst, Except.error.inj (herror.symm.trans hread)⟩

/-- A text of two lines. -/
def brokenSource : Bytes :=
  Utf8.encode "a\n+b)(c".toList

/-- A tree for it: something is made up within a mark that has no name, and an error stands within an error. -/
def brokenRoot : Node :=
  ⟨{ kind := "program", start := 0, stop := 7 },
    [⟨{ kind := "comment", start := 0, stop := 1 }, []⟩,
      ⟨{ kind := "mark", start := 1, stop := 4, named := false },
        [⟨{ kind := "identifier", start := 3, stop := 3, missing := true }, []⟩]⟩,
      ⟨{ kind := "ERROR", start := 4, stop := 7 }, [⟨{ kind := "ERROR", start := 5, stop := 6 }, []⟩]⟩]⟩

/-- Two of its three errors are listed, and the source is refused for the one that is made up. -/
theorem errors_exact_hidden :
    Utf8.WellFormed brokenSource ∧
    brokenRoot.errors.map Node.start = [3, 4] ∧
    ∃ error, readScopes (fun _ => brokenRoot) [] brokenSource "a.js" = .error error ∧
      error.message = "a.js:2:2: syntax error" := by
  have htext : Utf8.WellFormed brokenSource := Utf8.wellFormed_iff.mpr ⟨_, rfl⟩
  obtain ⟨htree, hrefused⟩ := errors_exact (fun _ => brokenRoot) [] brokenSource "a.js"
  obtain ⟨hiff, hplace⟩ := hrefused htext
  obtain ⟨-, hlisted, -⟩ := htree brokenRoot
  obtain ⟨error, herror, -⟩ := hiff.mpr ⟨_, List.mem_of_getElem? (i := 3) rfl, by decide⟩
  obtain ⟨site, hsite, hwhole⟩ := hplace error herror
  refine ⟨htext, ?_, error, herror, ?_⟩
  · rw [hlisted]
    decide
  · obtain rfl := Option.some.inj (hsite.symm.trans rfl)
    rw [hwhole]
    decide

end LoggerLint
