import LoggerLint.Syntax.Node

/-!
# Paths in a syntax tree

A `Path` is a list of nodes that leads from a node up to the root, each node a child of the next one.
A site in a tree is such a path, its node first. Nodes are plain values, so a path says where a node
stands as exactly as the tree allows.
-/

namespace LoggerLint

namespace Node

theorem mem_children_of_child? {node child : Node} {field : String}
    (h : node.child? field = some child) : child ∈ node.children :=
  List.mem_of_find?_eq_some h

theorem inField_of_child? {node child : Node} {field : String}
    (h : node.child? field = some child) : child.inField field = true := by
  have hfound := List.find?_some (p := fun other : Node => other.inField field) h
  exact hfound

theorem mem_children_of_namedChildren {node child : Node} (h : child ∈ node.namedChildren) :
    child ∈ node.children :=
  (List.mem_filter.mp h).1

/-- A way from a node up to the root, each node a child of the next. -/
inductive Path (root : Node) : List Node → Prop where
  /-- the root alone -/
  | root : Path root [root]
  /-- one step down from a node on the way -/
  | child {node parent : Node} {above : List Node} (hpath : Path root (parent :: above))
      (hchild : node ∈ parent.children) : Path root (node :: parent :: above)

namespace Path

variable {root : Node}

theorem tail {node : Node} {above : List Node} (h : Path root (node :: above)) (hne : above ≠ []) :
    Path root above := by
  cases h with
  | root => exact absurd rfl hne
  | child hpath _ => exact hpath

theorem mem_children {node parent : Node} {above : List Node}
    (h : Path root (node :: parent :: above)) : node ∈ parent.children := by
  cases h with
  | child _ hchild => exact hchild

end Path

end Node

/-- A site in the tree below a root. -/
def Site.In (site : Site) (root : Node) : Prop :=
  Node.Path root (site.node :: site.above)

end LoggerLint
