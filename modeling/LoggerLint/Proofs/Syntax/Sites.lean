import LoggerLint.Proofs.Syntax.Path
import LoggerLint.Proofs.Text.Utf8

/-!
# The sites of a tree

`Node.sites` lists every node of a tree in document order, each with the nodes around it. A node that
stands at several places is listed once for each of them, so counting sites counts places. The list
holds exactly the sites that a path leads to (`mem_sites_iff`).

With it, `Node.Fits` asks of a tree that the span of every node is one of the source.
-/

namespace LoggerLint.Node

mutual

/-- The sites at and below a node, in document order; `above` are the nodes around it. -/
def sitesBelow (above : List Node) : Node → List Site
  | ⟨label, children⟩ =>
    ⟨⟨label, children⟩, above⟩ :: sitesBelowAll (⟨label, children⟩ :: above) children

/-- The sites at and below the nodes. -/
def sitesBelowAll (above : List Node) : List Node → List Site
  | [] => []
  | node :: rest => sitesBelow above node ++ sitesBelowAll above rest

end

/-- All sites of a tree, in document order. -/
def sites (root : Node) : List Site :=
  sitesBelow [] root

theorem sitesBelowAll_eq_flatMap (above nodes : List Node) :
    sitesBelowAll above nodes = nodes.flatMap (sitesBelow above) := by
  induction nodes with
  | nil => rfl
  | cons node rest ih => rw [sitesBelowAll, List.flatMap_cons, ih]

theorem sitesBelow_eq (above : List Node) (node : Node) :
    sitesBelow above node =
      ⟨node, above⟩ :: node.children.flatMap (sitesBelow (node :: above)) := by
  cases node with
  | mk label children =>
    rw [sitesBelow, sitesBelowAll_eq_flatMap]
    rfl

theorem self_mem_sitesBelow (above : List Node) (node : Node) :
    (⟨node, above⟩ : Site) ∈ sitesBelow above node := by
  rw [sitesBelow_eq]
  exact .head _

mutual

/-- A site below a node is one step away from a site at or below it. -/
theorem child_mem_sitesBelow {parent child : Node} {rest : List Node} (hchild : child ∈ parent.children) :
    (above : List Node) → (node : Node) → (⟨parent, rest⟩ : Site) ∈ sitesBelow above node →
      (⟨child, parent :: rest⟩ : Site) ∈ sitesBelow above node
  | above, ⟨label, children⟩, h => by
    rw [sitesBelow] at h ⊢
    rcases List.mem_cons.mp h with heq | hbelow
    · obtain ⟨rfl, rfl⟩ := Site.mk.inj heq
      rw [sitesBelowAll_eq_flatMap]
      exact .tail _ (List.mem_flatMap.mpr ⟨child, hchild, self_mem_sitesBelow _ child⟩)
    · exact .tail _ (child_mem_sitesBelowAll hchild _ children hbelow)

theorem child_mem_sitesBelowAll {parent child : Node} {rest : List Node}
    (hchild : child ∈ parent.children) :
    (above nodes : List Node) → (⟨parent, rest⟩ : Site) ∈ sitesBelowAll above nodes →
      (⟨child, parent :: rest⟩ : Site) ∈ sitesBelowAll above nodes
  | above, [], h => by cases h
  | above, node :: nodes, h => by
    rw [sitesBelowAll, List.mem_append] at h ⊢
    rcases h with hfirst | hrest
    · exact .inl (child_mem_sitesBelow hchild above node hfirst)
    · exact .inr (child_mem_sitesBelowAll hchild above nodes hrest)

end

mutual

/-- **What is passed on from a node to its children holds at every site below it.** -/
theorem of_mem_sitesBelow {P : List Node → Node → Prop}
    (hP : ∀ above node, P above node → ∀ child ∈ node.children, P (node :: above) child) {site : Site} :
    (above : List Node) → (node : Node) → P above node → site ∈ sitesBelow above node →
      P site.above site.node
  | above, ⟨label, children⟩, hnode, h => by
    rw [sitesBelow] at h
    rcases List.mem_cons.mp h with rfl | hbelow
    · exact hnode
    · exact of_mem_sitesBelowAll hP _ children (hP above ⟨label, children⟩ hnode) hbelow

theorem of_mem_sitesBelowAll {P : List Node → Node → Prop}
    (hP : ∀ above node, P above node → ∀ child ∈ node.children, P (node :: above) child) {site : Site} :
    (above nodes : List Node) → (∀ node ∈ nodes, P above node) → site ∈ sitesBelowAll above nodes →
      P site.above site.node
  | above, [], _, h => by cases h
  | above, node :: rest, hnodes, h => by
    rw [sitesBelowAll, List.mem_append] at h
    rcases h with hfirst | hrest
    · exact of_mem_sitesBelow hP above node (hnodes node (.head _)) hfirst
    · exact of_mem_sitesBelowAll hP above rest (fun other hother => hnodes other (.tail _ hother)) hrest

end

theorem mem_sites_of_path {root : Node} {path : List Node} (h : Path root path) :
    ∀ node above, path = node :: above → (⟨node, above⟩ : Site) ∈ root.sites := by
  induction h with
  | root =>
    rintro node above ⟨⟩
    exact self_mem_sitesBelow [] root
  | child _ hchild ih =>
    rintro node above ⟨⟩
    exact child_mem_sitesBelow hchild [] root (ih _ _ rfl)

/-- **The sites of a tree are those that a path leads to.** -/
theorem mem_sites_iff {root : Node} {site : Site} : site ∈ root.sites ↔ site.In root := by
  constructor
  · refine of_mem_sitesBelow (P := fun above node => Path root (node :: above)) ?_ [] root .root
    exact fun above node hpath child hchild => hpath.child hchild
  · intro h
    exact mem_sites_of_path h _ _ rfl

/-! ## Spans in the source -/

/-- Every span of the tree is one of the source, from one character boundary to another. -/
def Fits (source : Bytes) (root : Node) : Prop :=
  ∀ site ∈ root.sites, site.node.start ≤ site.node.stop ∧
    Utf8.Boundary source site.node.start ∧ Utf8.Boundary source site.node.stop

instance (source : Bytes) (root : Node) : Decidable (root.Fits source) :=
  inferInstanceAs (Decidable (∀ site ∈ root.sites, _))

theorem Fits.of_path {source : Bytes} {root node : Node} {above : List Node} (h : root.Fits source)
    (hpath : Path root (node :: above)) :
    node.start ≤ node.stop ∧ Utf8.Boundary source node.start ∧ Utf8.Boundary source node.stop :=
  h ⟨node, above⟩ (mem_sites_iff.mpr hpath)

end LoggerLint.Node
