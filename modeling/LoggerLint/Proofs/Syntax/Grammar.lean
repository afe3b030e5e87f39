import LoggerLint.Proofs.Syntax.Sites

/-!
# Where calls stand in a program

The tree of a program follows the grammar of the language. Of that grammar little matters here: which
constructs hold expressions only at certain places. `slots?` lists these places, construct by construct,
by the fields and kinds of the nodes there; a construct that is not listed can hold an expression
anywhere. `Regular` says of one node that the calls below it stand at these places, and `IsProgram` asks
it of a whole tree.

A name is called upon (`Site.isCallee`) when it is the object of a member access that is the function of
a call. Such a name stands below nodes that hold the call, or right below the call itself
(`nearCall_of_mem_sitesBelow`).
-/

namespace LoggerLint

/-- Is this a name whose member is called? -/
def Site.isCallee (site : Site) : Bool :=
  site.node.kind == "identifier" && site.node.inField "object" &&
    match site.above with
    | member :: call :: _ =>
      member.kind == "member_expression" && member.inField "function" && call.kind == "call_expression"
    | _ => false

namespace Node

/-! ## Calls below a node -/

mutual

/-- Is there a call at or below the node? -/
def holdsCall : Node → Bool
  | ⟨label, children⟩ => label.kind == "call_expression" || anyHoldsCall children

/-- Is there a call at or below one of the nodes? -/
def anyHoldsCall : List Node → Bool
  | [] => false
  | node :: rest => holdsCall node || anyHoldsCall rest

end

theorem anyHoldsCall_eq_any (nodes : List Node) : anyHoldsCall nodes = nodes.any holdsCall := by
  induction nodes with
  | nil => rfl
  | cons node rest ih => rw [anyHoldsCall, ih, List.any_cons]

theorem holdsCall_iff {node : Node} : node.holdsCall = true ↔
    node.kind = "call_expression" ∨ ∃ child ∈ node.children, child.holdsCall = true := by
  cases node with
  | mk label children =>
    rw [holdsCall, anyHoldsCall_eq_any, Bool.or_eq_true, beq_iff_eq, List.any_eq_true]
    rfl

/-- There is a call at or below the node, or the node is a part of what is called right above it. -/
def NearCall (above : List Node) (node : Node) : Prop :=
  node.holdsCall = true ∨
    (node.kind = "member_expression" ∧ ∃ call ∈ above.head?, call.kind = "call_expression") ∨
    (node.kind = "identifier" ∧ ∃ member call rest, above = member :: call :: rest ∧
      member.kind = "member_expression" ∧ call.kind = "call_expression")

theorem nearCall_of_isCallee {node : Node} {above : List Node}
    (h : Site.isCallee ⟨node, above⟩ = true) : NearCall above node := by
  rw [Site.isCallee, Bool.and_eq_true, Bool.and_eq_true] at h
  obtain ⟨⟨hkind, -⟩, habove⟩ := h
  split at habove
  · rename_i member call rest hrest
    simp only [Bool.and_eq_true, beq_iff_eq] at hkind habove
    exact .inr (.inr ⟨hkind, member, call, rest, hrest, habove.1.1, habove.2⟩)
  · cases habove

/-- What is near a call stands below a node that is near it too. -/
theorem NearCall.parent {node child : Node} {above : List Node} (hchild : child ∈ node.children)
    (h : NearCall (node :: above) child) : NearCall above node := by
  rcases h with hcall | ⟨-, call, ⟨⟩, hcall⟩ | ⟨-, member, call, rest, habove, hmember, hcall⟩
  · exact .inl (holdsCall_iff.mpr (.inr ⟨child, hchild, hcall⟩))
  · exact .inl (holdsCall_iff.mpr (.inl hcall))
  · obtain ⟨rfl, rfl⟩ := List.cons.inj habove
    exact .inr (.inl ⟨hmember, call, rfl, hcall⟩)

/-- **A name that is called upon stands at or below nodes near its call only.** -/
theorem nearCall_of_mem_sitesBelow {site : Site} (hcallee : site.isCallee = true) {above : List Node}
    {node : Node} (hsite : site ∈ sitesBelow above node) : NearCall above node := by
  refine Classical.byContradiction fun hfar => ?_
  refine of_mem_sitesBelow (P := fun above node => ¬ NearCall above node) ?_ above node hfar hsite
    (nearCall_of_isCallee hcallee)
  exact fun above node hfar child hchild hnear => hfar (hnear.parent hchild)

/-! ## The places for expressions -/

/-- A place in a construct. -/
structure Slot where
  /-- the field, or none -/
  field : Option String
  /-- the kind of node that can hold an expression there, if only one can -/
  kind : Option String := none

namespace Slot

/-- Does the node stand at this place? -/
def admits (slot : Slot) (node : Node) : Bool :=
  node.label.field == slot.field && slot.kind.all (· == node.kind)

end Slot

/-- The places of a function. -/
def functionSlots : List Slot :=
  [⟨some "decorator", none⟩, ⟨some "name", some "computed_property_name"⟩,
    ⟨some "parameters", some "formal_parameters"⟩, ⟨some "parameter", none⟩, ⟨some "body", none⟩]

/-- The places of a class. -/
def classSlots : List Slot :=
  [⟨some "decorator", none⟩, ⟨none, some "class_heritage"⟩,
    ⟨some "body", some "class_body"⟩]

/-- The places of a list of declarators. -/
def declarationSlots : List Slot :=
  [⟨none, some "variable_declarator"⟩]

/-- The places of a loop over keys or elements. -/
def forInSlots : List Slot :=
  [⟨some "left", none⟩, ⟨some "value", none⟩, ⟨some "right", none⟩, ⟨some "body", none⟩]

/-- The places of a handler of exceptions. -/
def catchSlots : List Slot :=
  [⟨some "parameter", none⟩, ⟨some "body", none⟩]

/-- The places of a switch. -/
def switchSlots : List Slot :=
  [⟨some "value", none⟩, ⟨some "body", some "switch_body"⟩]

/-- The places of an assignment, and of a pattern with a default value. -/
def assignmentSlots : List Slot :=
  [⟨some "left", none⟩, ⟨some "right", none⟩]

/-- The places of a construct in which an expression can stand; `none` if it can stand anywhere. -/
def slots? (kind : String) : Option (List Slot) :=
  match kind with
  | "identifier" | "shorthand_property_identifier" | "shorthand_property_identifier_pattern"
  | "comment" | "string" | "export_clause" | "namespace_export" => some []
  | "variable_declaration" | "lexical_declaration" => some declarationSlots
  | "variable_declarator" => some [⟨some "name", none⟩, ⟨some "value", none⟩]
  | "function_declaration" | "generator_function_declaration" | "function_expression" | "function"
  | "generator_function" | "arrow_function" | "method_definition" => some functionSlots
  | "class_declaration" | "class" => some classSlots
  | "for_in_statement" => some forInSlots
  | "catch_clause" => some catchSlots
  | "switch_statement" => some switchSlots
  | "assignment_expression" | "augmented_assignment_expression" | "assignment_pattern"
  | "object_assignment_pattern" => some assignmentSlots
  | "pair_pattern" => some [⟨some "key", some "computed_property_name"⟩, ⟨some "value", none⟩]
  | _ => none

/-- The kind of node that always stands in a field of a construct, if it is one kind only. -/
def holder? (kind field : String) : Option String :=
  match kind, field with
  | "class_declaration", "body" | "class", "body" => some "class_body"
  | "switch_statement", "body" => some "switch_body"
  | _, "parameters" => some "formal_parameters"
  | _, "decorator" => some "decorator"
  | _, _ => none

theorem holder?_parameters (kind : String) : holder? kind "parameters" = some "formal_parameters" := by
  unfold holder?
  split
  all_goals simp_all

theorem holder?_decorator (kind : String) : holder? kind "decorator" = some "decorator" := by
  unfold holder?
  split
  all_goals simp_all

/-- One node follows the grammar. -/
structure Regular (node : Node) : Prop where
  /-- names, member accesses and what holds a call are no mere marks -/
  named : ∀ child ∈ node.children, child.holdsCall = true ∨ child.kind = "identifier" ∨
    child.kind = "member_expression" → child.named = true
  /-- what holds a call stands at one of the places for expressions -/
  placed : ∀ slots ∈ slots? node.kind, ∀ child ∈ node.children, child.holdsCall = true →
    ∃ slot ∈ slots, slot.admits child = true
  /-- one node stands in a field, but for decorators -/
  single : ∀ slots ∈ slots? node.kind, ∀ slot ∈ slots, ∀ field ∈ slot.field, field ≠ "decorator" →
    (node.children.filter (·.inField field)).length ≤ 1
  /-- the node in a field is of the kind that goes there -/
  held : ∀ child ∈ node.children, ∀ field ∈ child.label.field, ∀ kind ∈ holder? node.kind field,
    child.kind = kind

theorem regular_iff {node : Node} : node.Regular ↔
    (∀ child ∈ node.children, child.holdsCall = true ∨ child.kind = "identifier" ∨
      child.kind = "member_expression" → child.named = true) ∧
    (∀ slots ∈ slots? node.kind, ∀ child ∈ node.children, child.holdsCall = true →
      ∃ slot ∈ slots, slot.admits child = true) ∧
    (∀ slots ∈ slots? node.kind, ∀ slot ∈ slots, ∀ field ∈ slot.field, field ≠ "decorator" →
      (node.children.filter (·.inField field)).length ≤ 1) ∧
    (∀ child ∈ node.children, ∀ field ∈ child.label.field, ∀ kind ∈ holder? node.kind field,
      child.kind = kind) :=
  ⟨fun ⟨h₁, h₂, h₃, h₄⟩ => ⟨h₁, h₂, h₃, h₄⟩, fun ⟨h₁, h₂, h₃, h₄⟩ => ⟨h₁, h₂, h₃, h₄⟩⟩

instance (node : Node) : Decidable node.Regular :=
  decidable_of_iff' _ regular_iff

/-- **The tree of a program**, every node of which follows the grammar. -/
structure IsProgram (root : Node) : Prop where
  /-- the root is a program -/
  kind : root.kind = "program"
  /-- the grammar is followed at every site -/
  regular : ∀ site ∈ root.sites, site.node.Regular

end Node

end LoggerLint
