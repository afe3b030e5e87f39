import LoggerLint.Proofs.Syntax.Path
import LoggerLint.Proofs.Text.Utf8

/-!
# Spans in a well-formed tree

A parser that does its work gives a tree whose spans fit together: a child lies inside its parent,
siblings follow one another, and all of them start and end between two characters. `WellFormed` asks
for that at every node, and for the few facts about member accesses, calls and interpreter lines that
tie a node's span to those of its children.

Two nodes of such a tree stand one inside the other, or their spans are apart
(`Path.nested_or_apart`).
-/

namespace LoggerLint.Node

/-! ## Well-formed trees -/

/-- The spans at one node fit together. -/
structure Spanned (source : Bytes) (node : Node) : Prop where
  /-- the node ends within the source -/
  stop_le : node.stop ≤ source.length
  /-- a child lies inside its parent -/
  inside : ∀ child ∈ node.children, node.start ≤ child.start ∧ child.stop ≤ node.stop
  /-- a child starts and ends between two characters -/
  boundary : ∀ child ∈ node.children,
    Utf8.Boundary source child.start ∧ Utf8.Boundary source child.stop
  /-- siblings follow one another -/
  ordered : node.children.Pairwise fun left right => left.stop ≤ right.start
  /-- a member access starts with its object -/
  member : node.kind = "member_expression" →
    ∀ object ∈ node.child? "object", object.start = node.start
  /-- a call starts with what is called -/
  call : node.kind = "call_expression" →
    ∀ function ∈ node.child? "function", function.start = node.start
  /-- an interpreter line has no parts -/
  hashBang : node.kind = "hash_bang_line" → node.children = []

theorem spanned_iff {source : Bytes} {node : Node} : node.Spanned source ↔
    node.stop ≤ source.length ∧
    (∀ child ∈ node.children, node.start ≤ child.start ∧ child.stop ≤ node.stop) ∧
    (∀ child ∈ node.children,
      Utf8.Boundary source child.start ∧ Utf8.Boundary source child.stop) ∧
    (node.children.Pairwise fun left right => left.stop ≤ right.start) ∧
    (node.kind = "member_expression" →
      ∀ object ∈ node.child? "object", object.start = node.start) ∧
    (node.kind = "call_expression" →
      ∀ function ∈ node.child? "function", function.start = node.start) ∧
    (node.kind = "hash_bang_line" → node.children = []) :=
  ⟨fun ⟨h₁, h₂, h₃, h₄, h₅, h₆, h₇⟩ => ⟨h₁, h₂, h₃, h₄, h₅, h₆, h₇⟩,
    fun ⟨h₁, h₂, h₃, h₄, h₅, h₆, h₇⟩ => ⟨h₁, h₂, h₃, h₄, h₅, h₆, h₇⟩⟩

instance (source : Bytes) (node : Node) : Decidable (node.Spanned source) :=
  decidable_of_iff' _ spanned_iff

/-- **A well-formed tree**: the spans fit together at every node. -/
inductive WellFormed (source : Bytes) : Node → Prop where
  /-- they do at this node, and in the trees below it -/
  | mk {node : Node} (spanned : node.Spanned source)
      (children : ∀ child ∈ node.children, WellFormed source child) : WellFormed source node

mutual

/-- Do the spans fit together at and below a node? -/
def isWellFormed (source : Bytes) : Node → Bool
  | ⟨label, children⟩ => decide (Spanned source ⟨label, children⟩) && allWellFormed source children

/-- Do the spans fit together at and below the nodes? -/
def allWellFormed (source : Bytes) : List Node → Bool
  | [] => true
  | node :: rest => isWellFormed source node && allWellFormed source rest

end

mutual

theorem wellFormed_of_isWellFormed {source : Bytes} : (node : Node) →
    isWellFormed source node = true → WellFormed source node
  | ⟨label, children⟩, h => by
    rw [isWellFormed, Bool.and_eq_true, decide_eq_true_eq] at h
    exact .mk h.1 (wellFormed_of_allWellFormed children h.2)

theorem wellFormed_of_allWellFormed {source : Bytes} : (nodes : List Node) →
    allWellFormed source nodes = true → ∀ node ∈ nodes, WellFormed source node
  | [], _ => by simp
  | node :: rest, h => by
    rw [allWellFormed, Bool.and_eq_true] at h
    exact List.forall_mem_cons.mpr
      ⟨wellFormed_of_isWellFormed node h.1, wellFormed_of_allWellFormed rest h.2⟩

end

namespace WellFormed

variable {source : Bytes} {root : Node}

theorem spanned {node : Node} (h : WellFormed source node) : node.Spanned source := by
  cases h with
  | mk hspanned _ => exact hspanned

theorem of_path (hroot : WellFormed source root) {path : List Node} (hpath : Path root path) :
    ∀ node ∈ path.head?, WellFormed source node := by
  induction hpath with
  | root =>
    rintro node ⟨⟩
    exact hroot
  | child _ hchild ih =>
    rintro node ⟨⟩
    cases ih _ rfl with
    | mk _ hchildren => exact hchildren _ hchild

end WellFormed

namespace Path

variable {source : Bytes} {root : Node}

/-! ## Nodes above one another -/

/-- Every path ends at the root. -/
theorem root_suffix {path : List Node} (h : Path root path) : [root] <:+ path := by
  induction h with
  | root => exact List.suffix_refl _
  | child _ _ ih => exact ih.trans (List.suffix_cons _ _)

/-- The node at the start of a path is well-formed, and so is every one above it. -/
theorem spanned (hroot : WellFormed source root) {node : Node} {above : List Node}
    (h : Path root (node :: above)) : node.Spanned source :=
  (hroot.of_path h node rfl).spanned

theorem inside_parent (hroot : WellFormed source root) {node parent : Node} {above : List Node}
    (h : Path root (node :: parent :: above)) :
    parent.start ≤ node.start ∧ node.stop ≤ parent.stop :=
  ((h.tail (by simp)).spanned hroot).inside node h.mem_children

/-- A node lies inside every node above it. -/
theorem inside_of_suffix (hroot : WellFormed source root) {inner outer : Node} {above rest : List Node}
    (h : Path root (inner :: above)) (hsuffix : (outer :: rest) <:+ (inner :: above)) :
    outer.start ≤ inner.start ∧ inner.stop ≤ outer.stop := by
  induction above generalizing inner with
  | nil =>
    rcases List.suffix_cons_iff.mp hsuffix with heq | hnil
    · obtain ⟨rfl, -⟩ := List.cons.inj heq
      exact ⟨Nat.le_refl _, Nat.le_refl _⟩
    · exact absurd (List.suffix_nil.mp hnil) (by simp)
  | cons parent above ih =>
    rcases List.suffix_cons_iff.mp hsuffix with heq | hup
    · obtain ⟨rfl, -⟩ := List.cons.inj heq
      exact ⟨Nat.le_refl _, Nat.le_refl _⟩
    · obtain ⟨hstart, hstop⟩ := ih (h.tail (by simp)) hup
      obtain ⟨hstart', hstop'⟩ := h.inside_parent hroot
      exact ⟨Nat.le_trans hstart hstart', Nat.le_trans hstop' hstop⟩

/-- A path that goes up through a node comes from it or from one of its children. -/
theorem of_suffix {path : List Node} (h : Path root path) {node : Node} {above : List Node}
    (hsuffix : (node :: above) <:+ path) :
    path = node :: above ∨ ∃ child ∈ node.children, (child :: node :: above) <:+ path := by
  induction h with
  | root =>
    rcases List.suffix_cons_iff.mp hsuffix with heq | hnil
    · exact .inl heq.symm
    · exact absurd (List.suffix_nil.mp hnil) (by simp)
  | child hpath hchild ih =>
    rcases List.suffix_cons_iff.mp hsuffix with heq | hup
    · exact .inl heq.symm
    · refine .inr ?_
      rcases ih hup with heq | ⟨child, hmem, hbelow⟩
      · obtain ⟨rfl, rfl⟩ := List.cons.inj heq
        exact ⟨_, hchild, List.suffix_refl _⟩
      · exact ⟨child, hmem, hbelow.trans (List.suffix_cons _ _)⟩

/-- Two siblings are apart. -/
theorem apart_of_mem_children {node left right : Node} (hnode : node.Spanned source)
    (hleft : left ∈ node.children) (hright : right ∈ node.children) (hne : left ≠ right) :
    left.stop ≤ right.start ∨ right.stop ≤ left.start := by
  have hpairs := hnode.ordered
  generalize node.children = children at hpairs hleft hright
  induction hpairs with
  | nil => cases hleft
  | cons hfirst _ ih =>
    rcases List.mem_cons.mp hleft with rfl | hleft'
    · rcases List.mem_cons.mp hright with rfl | hright'
      · exact absurd rfl hne
      · exact .inl (hfirst right hright')
    · rcases List.mem_cons.mp hright with rfl | hright'
      · exact .inr (hfirst left hleft')
      · exact ih hleft' hright'

/-- **Two nodes nest or are apart.** One of the paths goes up through the other node, or the spans of the
nodes do not meet. -/
theorem nested_or_apart (hroot : WellFormed source root) {n m : Node} {above above' : List Node}
    (h : Path root (n :: above)) (h' : Path root (m :: above')) :
    (n :: above) <:+ (m :: above') ∨ (m :: above') <:+ (n :: above) ∨
      n.stop ≤ m.start ∨ m.stop ≤ n.start := by
  -- the paths are followed down from the root, until the second one leaves the first
  induction above generalizing n with
  | nil =>
    cases h with
    | root => exact .inl h'.root_suffix
  | cons parent above ih =>
    have hparent := h.inside_parent hroot
    rcases ih (h.tail (by simp)) with hthrough | hthrough | happart | happart
    · -- both paths go through the parent: the second one ends there, or goes on below a child
      rcases h'.of_suffix hthrough with heq | ⟨child, hchild, hbelow⟩
      · exact .inr (.inl (heq ▸ List.suffix_cons _ _))
      · by_cases hsame : child = n
        · exact .inl (hsame ▸ hbelow)
        · have hspan := h'.inside_of_suffix hroot hbelow
          rcases apart_of_mem_children ((h.tail (by simp)).spanned hroot) h.mem_children hchild
            (Ne.symm hsame) with hbefore | hbehind
          · exact .inr (.inr (.inl (by omega)))
          · exact .inr (.inr (.inr (by omega)))
    · exact .inr (.inl (hthrough.trans (List.suffix_cons _ _)))
    · exact .inr (.inr (.inl (by omega)))
    · exact .inr (.inr (.inr (by omega)))

end Path

end LoggerLint.Node
