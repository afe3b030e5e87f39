import LoggerLint.Scope.Outline
import LoggerLint.Proofs.Syntax.Grammar
import Mathlib.Algebra.BigOperators.Group.Multiset.Basic

/-!
# Places that are read

A construct is read place by place, and some places are not read at all: `Outline.neglects` names them, and
`Site.forgotten` says that a site stands at or below one. The names called upon that are to be met at a node
(`Outline.toMeet`) are the others.

A node that is read follows the grammar, and no place on the way to it was left out (`Outline.Ready`). Then
what is to be met at it stands in the places that its construct reads: in all its children
(`Ready.whole`), in some of its fields (`Ready.readsFields`), or, in a class, in its heritage clauses and its
body (`Ready.toMeet_class`).
-/

namespace LoggerLint

namespace Outline

/-! ## Places that are not read -/

/-- Is this child of a construct left out when the construct is read? Nothing of an import is read but the
names it binds; a loop over keys is read without the initial value of its name; classes and functions are
read without their decorators. -/
def neglects (kind : String) (child : Node) : Bool :=
  match Form.ofKind kind with
  | .importing => true
  | .forIn => child.inField "value"
  | .function _ | .classBody _ => child.inField "decorator"
  | _ => false

/-- Does the way from a node up to the root pass a place that is not read? -/
def forgotten : List Node → Bool
  | child :: parent :: above => neglects parent.kind child || forgotten (parent :: above)
  | _ => false

end Outline

/-- Does the site stand at or below a place that is not read? -/
def Site.forgotten (site : Site) : Bool :=
  Outline.forgotten (site.node :: site.above)

namespace Outline

open Node (sitesBelow sitesBelow_eq NearCall Regular slots?)

/-! ## What is to be met -/

/-- The names called upon at and below a node that are to be met, by their sites. -/
def toMeet (above : List Node) (node : Node) : Multiset Site :=
  (sitesBelow above node).filter fun site => site.isCallee && !site.forgotten

theorem coe_filter_flatMap (p : Site → Bool) (sites : Node → List Site) (nodes : List Node) :
    ((nodes.flatMap sites).filter p : Multiset Site) =
      (nodes.map fun node => ((sites node).filter p : Multiset Site)).sum := by
  induction nodes with
  | nil => rfl
  | cons node rest ih =>
    rw [List.map_cons, List.sum_cons, ← ih, Multiset.coe_add, List.flatMap_cons, List.filter_append]

/-- What is to be met at and below a node: the node itself, and what is to be met below it. -/
theorem toMeet_eq (above : List Node) (node : Node) :
    toMeet above node =
      (if Site.isCallee ⟨node, above⟩ && !Site.forgotten ⟨node, above⟩ then {⟨node, above⟩} else 0) +
        (node.children.map (toMeet (node :: above))).sum := by
  rw [toMeet, sitesBelow_eq, List.filter_cons]
  split
  · rw [← Multiset.cons_coe, coe_filter_flatMap, Multiset.singleton_add]
    rfl
  · rw [coe_filter_flatMap, Multiset.zero_add]
    rfl

/-- What is to be met at a node that is no name stands in its children. -/
theorem toMeet_eq_sum {above : List Node} {node : Node} (hkind : node.kind ≠ "identifier") :
    toMeet above node = (node.children.map (toMeet (node :: above))).sum := by
  have hnot : Site.isCallee ⟨node, above⟩ = false := by simp [Site.isCallee, hkind]
  rw [toMeet_eq, hnot]
  simp

theorem forgotten_of_mem_sitesBelow {site : Site} {above : List Node} {node : Node}
    (h : forgotten (node :: above) = true) (hsite : site ∈ sitesBelow above node) :
    site.forgotten = true := by
  refine Node.of_mem_sitesBelow (P := fun above node => forgotten (node :: above) = true) ?_ above node h
    hsite
  intro above node h child _
  rw [forgotten, h, Bool.or_true]

/-- Below a place that is not read there is nothing to meet. -/
theorem toMeet_eq_zero_of_forgotten {above : List Node} {node : Node}
    (h : forgotten (node :: above) = true) : toMeet above node = 0 := by
  refine congrArg _ (List.filter_eq_nil_iff.mpr fun site hsite hkept => ?_)
  rw [forgotten_of_mem_sitesBelow h hsite] at hkept
  simp at hkept

/-- Away from calls there is nothing to meet. -/
theorem toMeet_eq_zero_of_not_nearCall {above : List Node} {node : Node} (h : ¬ NearCall above node) :
    toMeet above node = 0 := by
  refine congrArg _ (List.filter_eq_nil_iff.mpr fun site hsite hcallee => h ?_)
  rw [Bool.and_eq_true] at hcallee
  exact Node.nearCall_of_mem_sitesBelow hcallee.1 hsite

/-! ## Sums over the children of a node -/

/-- What the nodes in a field give together. -/
def atField (value : Node → Multiset Site) (field : String) (nodes : List Node) : Multiset Site :=
  (nodes.map fun node => if node.inField field then value node else 0).sum

/-- A node stands in one field only. -/
theorem inField_eq_false {node : Node} {field other : String} (h : node.inField field = true)
    (hne : field ≠ other) : node.inField other = false := by
  rw [Node.inField, beq_iff_eq] at h
  simp [Node.inField, h, hne]

/-- A node stands in one field of a list at most. -/
theorem sum_ite_inField {fields : List String} (hfields : fields.Nodup) (node : Node)
    (value : Multiset Site) :
    (fields.map fun field => if node.inField field then value else 0).sum =
      if ∃ field ∈ fields, node.inField field = true then value else 0 := by
  induction fields with
  | nil => simp
  | cons field rest ih =>
    obtain ⟨hfield, hrest⟩ := List.nodup_cons.mp hfields
    rw [List.map_cons, List.sum_cons, ih hrest]
    by_cases hin : node.inField field = true
    · have hno : ¬ ∃ other ∈ rest, node.inField other = true := by
        rintro ⟨other, hother, hin'⟩
        rw [inField_eq_false hin fun heq => hfield (heq ▸ hother)] at hin'
        cases hin'
      simp [hin, hno]
    · simp [hin]

/-- **What the children of a node give stands in its fields**, if what gives something does. -/
theorem sum_eq_atFields {value : Node → Multiset Site} {nodes : List Node} {fields : List String}
    (hfields : fields.Nodup)
    (h : ∀ node ∈ nodes, value node ≠ 0 → ∃ field ∈ fields, node.inField field = true) :
    (nodes.map value).sum = (fields.map fun field => atField value field nodes).sum := by
  induction nodes with
  | nil => simp [atField]
  | cons node rest ih =>
    have hfirst : (fields.map fun field => if node.inField field then value node else 0).sum =
        value node := by
      rw [sum_ite_inField hfields]
      split
      · rfl
      · rename_i hnone
        exact (Classical.not_not.mp fun hne => hnone (h node (.head _) hne)).symm
    simp only [atField, List.map_cons, List.sum_cons] at ih ⊢
    rw [List.sum_map_add, hfirst, ih fun other hother => h other (.tail _ hother)]

/-- One node at most stands in a field. -/
def Single (field : String) (nodes : List Node) : Prop :=
  (nodes.filter (·.inField field)).length ≤ 1

theorem Single.tail {field : String} {node : Node} {rest : List Node} (h : Single field (node :: rest)) :
    Single field rest := by
  rw [Single, List.filter_cons] at h
  split at h
  · exact Nat.le_of_succ_le h
  · exact h

/-- Then the first node in it is the one that gives something. -/
theorem Single.atField_cons {field : String} {node : Node} {rest : List Node}
    (h : Single field (node :: rest)) (value : Node → Multiset Site) :
    atField value field (node :: rest) =
      if node.inField field then value node else atField value field rest := by
  by_cases hin : node.inField field = true
  · have hnone : rest.filter (·.inField field) = [] := by
      rw [Single, List.filter_cons, if_pos hin, List.length_cons] at h
      exact List.length_eq_zero_iff.mp (Nat.le_zero.mp (Nat.le_of_succ_le_succ h))
    have hrest : atField value field rest = 0 := by
      refine List.sum_eq_zero fun given hgiven => ?_
      obtain ⟨other, hother, rfl⟩ := List.mem_map.mp hgiven
      rw [if_neg (List.filter_eq_nil_iff.mp hnone other hother)]
    rw [if_pos hin, ← add_zero (value node), ← hrest]
    simp [atField, hin]
  · simp [atField, hin]

/-! ## Nodes that are read -/

/-- A node that is read in a role: the grammar is followed below it, nothing on the way to it was left
out, and where its names are no expressions it is not the object of what is called. -/
structure Ready (above : List Node) (role : Role) (node : Node) : Prop where
  /-- the grammar is followed -/
  regular : ∀ site ∈ sitesBelow above node, site.node.Regular
  /-- nothing was left out -/
  kept : forgotten (node :: above) = false
  /-- a pattern is no object of a call -/
  apart : role = .expression ∨ Site.isCallee ⟨node, above⟩ = false

namespace Ready

variable {above : List Node} {role : Role} {node child : Node}

theorem self (h : Ready above role node) : node.Regular :=
  h.regular ⟨node, above⟩ (Node.self_mem_sitesBelow above node)

/-- What is below a node is read as well, where it is not left out. -/
theorem below (h : Ready above role node) (hchild : child ∈ node.children)
    (hread : neglects node.kind child = false) {role' : Role}
    (hrole : role' = .expression ∨ node.kind ≠ "member_expression") :
    Ready (node :: above) role' child where
  regular := by
    intro site hsite
    refine h.regular site ?_
    rw [sitesBelow_eq]
    exact .tail _ (List.mem_flatMap.mpr ⟨child, hchild, hsite⟩)
  kept := by
    rw [forgotten, hread, h.kept]
    rfl
  apart := by
    refine hrole.imp_right fun hkind => ?_
    rcases above with _ | ⟨call, rest⟩
    · simp [Site.isCallee]
    · simp [Site.isCallee, hkind]

/-- A child that is a mere mark holds nothing to meet. -/
theorem toMeet_unnamed (h : Ready above role node) (hchild : child ∈ node.children)
    (hnamed : child.named = false) : toMeet (node :: above) child = 0 := by
  refine toMeet_eq_zero_of_not_nearCall fun hnear => ?_
  have hcarries : child.holdsCall = true ∨ child.kind = "identifier" ∨
      child.kind = "member_expression" := by
    rcases hnear with hcall | ⟨hkind, -⟩ | ⟨hkind, -⟩
    · exact .inl hcall
    · exact .inr (.inr hkind)
    · exact .inr (.inl hkind)
  rw [h.self.named child hchild hcarries] at hnamed
  cases hnamed

/-- What is to be met at a node that is no name stands in those of its children that are named. -/
theorem toMeet_eq_sum_named (h : Ready above role node) (hkind : node.kind ≠ "identifier") :
    toMeet above node =
      (node.children.map fun child => if child.named then toMeet (node :: above) child else 0).sum := by
  rw [toMeet_eq_sum hkind]
  refine congrArg List.sum (List.map_congr_left fun child hchild => ?_)
  split
  · rfl
  · rename_i hnamed
    exact h.toMeet_unnamed hchild (by simpa using hnamed)

end Ready

/-! ## Where the expressions of a form stand -/

/-- The places in which the forms that are read place by place hold expressions. -/
def Form.slots? : Form → Option (List Node.Slot)
  | .declarators _ => some Node.declarationSlots
  | .function _ => some Node.functionSlots
  | .classBody _ => some Node.classSlots
  | .forIn => some Node.forInSlots
  | .catchClause => some Node.catchSlots
  | .switchStatement => some Node.switchSlots
  | .assignment => some Node.assignmentSlots
  | _ => none

/-- A kind of node that is neither a name nor a part of a call. -/
def Inert (kind : String) : Prop :=
  kind ≠ "identifier" ∧ kind ≠ "member_expression" ∧ kind ≠ "call_expression"

/-- The grammar has the same places for the kinds of a form. -/
theorem slots?_of_form {kind : String} {form : Form} {slots : List Node.Slot}
    (h : Form.ofKind kind = form) (hslots : form.slots? = some slots) :
    slots? kind = some slots ∧ Inert kind := by
  subst h
  unfold Form.ofKind at hslots
  split at hslots
  all_goals first
    | exact ⟨hslots, by decide, by decide, by decide⟩
    | cases hslots

theorem holder?_of_class {kind : String} {isDeclared : Bool}
    (h : Form.ofKind kind = .classBody isDeclared) : Node.holder? kind "body" = some "class_body" := by
  unfold Form.ofKind at h
  split at h
  all_goals first
    | rfl
    | cases h

theorem holder?_of_switch {kind : String} (h : Form.ofKind kind = .switchStatement) :
    Node.holder? kind "body" = some "switch_body" := by
  unfold Form.ofKind at h
  split at h
  all_goals first
    | rfl
    | cases h

/-- A name has no place for expressions. -/
theorem of_nameForm {kind : String} (h : Form.ofKind kind = .name) :
    kind ≠ "member_expression" ∧ kind ≠ "call_expression" ∧ slots? kind = some [] := by
  unfold Form.ofKind at h
  split at h
  all_goals first
    | exact ⟨by decide, by decide, rfl⟩
    | cases h

/-- Is everything in a construct of this form read? -/
def Form.whole : Form → Bool
  | .importing | .function _ | .classBody _ | .forIn => false
  | _ => true

theorem neglects_of_form {kind : String} {form : Form} (h : Form.ofKind kind = form)
    (hform : form.whole = true) (child : Node) : neglects kind child = false := by
  rw [neglects, h]
  cases form with
  | importing | function | classBody | forIn => cases hform
  | _ => rfl

theorem ne_identifier_of_form {kind : String} {form : Form} (h : Form.ofKind kind = form)
    (hform : form ≠ .name) : kind ≠ "identifier" := by
  rintro rfl
  exact hform h.symm

/-- The places in which patterns that are read place by place hold expressions. -/
def PatternForm.slots? : PatternForm → Option (List Node.Slot)
  | .name | .comment => some []
  | .pair => some [⟨some "key", some "computed_property_name"⟩, ⟨some "value", none⟩]
  | .withDefault => some Node.assignmentSlots
  | .group | .expression => none

theorem slots?_of_patternForm {kind : String} {form : PatternForm} {slots : List Node.Slot}
    (h : PatternForm.ofKind kind = form) (hslots : form.slots? = some slots) :
    slots? kind = some slots := by
  subst h
  unfold PatternForm.ofKind at hslots
  split at hslots
  all_goals first
    | exact hslots
    | cases hslots

/-- A pattern is no part of a call, and all of it is read. -/
theorem of_patternForm {kind : String} {form : PatternForm} (h : PatternForm.ofKind kind = form)
    (hform : form ≠ .expression) :
    kind ≠ "member_expression" ∧ kind ≠ "call_expression" ∧ ∀ child, neglects kind child = false := by
  subst h
  unfold PatternForm.ofKind at hform
  split at hform
  all_goals first
    | exact ⟨by decide, by decide, fun _ => rfl⟩
    | exact absurd rfl hform

theorem ne_identifier_of_patternForm {kind : String} {form : PatternForm}
    (h : PatternForm.ofKind kind = form) (hform : form ≠ .name) : kind ≠ "identifier" := by
  rintro rfl
  exact hform h.symm

/-- Only in a pattern there are forms of patterns. -/
theorem Role.of_patternForm {role : Role} {kind : String} {form : PatternForm}
    (h : role.patternForm kind = form) (hform : form ≠ .expression) :
    role ≠ .expression ∧ PatternForm.ofKind kind = form := by
  cases role with
  | expression => exact absurd h.symm hform
  | binding binder => exact ⟨nofun, h⟩
  | target => exact ⟨nofun, h⟩

/-- The kinds of node whose children are read in their place. -/
def holders : List String :=
  ["formal_parameters", "class_body", "switch_body", "class_heritage", "statement_block"]

theorem of_mem_holders {kind : String} (h : kind ∈ holders) :
    Inert kind ∧ ∀ child, neglects kind child = false := by
  simp only [holders, List.mem_cons, List.not_mem_nil, or_false] at h
  rcases h with rfl | rfl | rfl | rfl | rfl
  all_goals exact ⟨⟨by decide, by decide, by decide⟩, fun _ => rfl⟩

theorem inField_of_admits {slot : Node.Slot} {node : Node} {field : String}
    (h : slot.admits node = true) (hfield : slot.field = some field) : node.inField field = true := by
  rw [Node.Slot.admits, Bool.and_eq_true, beq_iff_eq, hfield] at h
  simp [Node.inField, h.1]

theorem kind_of_admits {slot : Node.Slot} {node : Node} {kind : String}
    (h : slot.admits node = true) (hkind : slot.kind = some kind) : node.kind = kind := by
  rw [Node.Slot.admits, Bool.and_eq_true, hkind, Option.all_some] at h
  exact (eq_of_beq h.2).symm

namespace Ready

variable {above : List Node} {role : Role} {node child : Node}

/-- What is to be met below a node that is no part of a call stands with a call, and is read. -/
theorem of_toMeet_ne_zero (haccess : node.kind ≠ "member_expression")
    (hcall : node.kind ≠ "call_expression") (hne : toMeet (node :: above) child ≠ 0) :
    child.holdsCall = true ∧ neglects node.kind child = false := by
  constructor
  · have hnear : NearCall (node :: above) child :=
      Classical.not_not.mp fun hfar => hne (toMeet_eq_zero_of_not_nearCall hfar)
    rcases hnear with hholds | ⟨-, call, ⟨⟩, hkind⟩ | ⟨-, member, call, rest, habove, hkind, -⟩
    · exact hholds
    · exact absurd hkind hcall
    · obtain ⟨rfl, -⟩ := List.cons.inj habove
      exact absurd hkind haccess
  · refine (Bool.not_eq_true _).mp fun hskip => hne (toMeet_eq_zero_of_forgotten ?_)
    rw [forgotten, hskip, Bool.true_or]

/-- It stands at one of the places for expressions. -/
theorem exists_slot (h : Ready above role node) (haccess : node.kind ≠ "member_expression")
    (hcall : node.kind ≠ "call_expression") {slots : List Node.Slot}
    (hslots : slots? node.kind = some slots) (hchild : child ∈ node.children)
    (hne : toMeet (node :: above) child ≠ 0) :
    neglects node.kind child = false ∧ ∃ slot ∈ slots, slot.admits child = true := by
  obtain ⟨hholds, hread⟩ := of_toMeet_ne_zero haccess hcall hne
  exact ⟨hread, h.self.placed slots hslots child hchild hholds⟩

/-- A node without places for expressions holds nothing but itself. -/
theorem toMeet_eq_self (h : Ready above role node) (haccess : node.kind ≠ "member_expression")
    (hcall : node.kind ≠ "call_expression") (hslots : slots? node.kind = some []) :
    toMeet above node = if Site.isCallee ⟨node, above⟩ then {⟨node, above⟩} else 0 := by
  have hzero : (node.children.map (toMeet (node :: above))).sum = 0 := by
    refine List.sum_eq_zero fun value hvalue => ?_
    obtain ⟨child, hchild, rfl⟩ := List.mem_map.mp hvalue
    refine Classical.not_not.mp fun hne => ?_
    obtain ⟨-, slot, hslot, -⟩ := h.exists_slot haccess hcall hslots hchild hne
    cases hslot
  have hkept : Site.forgotten ⟨node, above⟩ = false := h.kept
  rw [toMeet_eq, hzero, hkept]
  simp

/-- The children of a node whose children are read in its place are read. -/
theorem within (h : Ready above role node) (hkind : node.kind ∈ holders) (role' : Role) :
    ∀ child ∈ node.children, Ready (node :: above) role' child := by
  intro child hchild
  obtain ⟨⟨-, haccess, -⟩, hread⟩ := of_mem_holders hkind
  exact h.below hchild (hread child) (.inr haccess)

/-- Where a field has a place for computed keys only, anything else in it holds nothing. -/
theorem toMeet_of_not_computed (h : Ready above role node) (hkind : Inert node.kind)
    {slots : List Node.Slot} (hslots : slots? node.kind = some slots) {field : String}
    (hcomputed : ∀ slot ∈ slots, slot.field = some field → slot.kind = some "computed_property_name") :
    ∀ child ∈ node.children, child.inField field = true → child.kind ≠ "computed_property_name" →
      toMeet (node :: above) child = 0 := by
  intro child hchild hin hplain
  refine Classical.not_not.mp fun hne => hplain ?_
  obtain ⟨-, slot, hslot, hadmits⟩ := h.exists_slot hkind.2.1 hkind.2.2 hslots hchild hne
  have hfield : slot.field = some field := by
    rw [Node.Slot.admits, Bool.and_eq_true, beq_iff_eq] at hadmits
    rw [Node.inField, beq_iff_eq] at hin
    rw [← hadmits.1, hin]
  exact kind_of_admits hadmits (hcomputed slot hslot hfield)

/-- The node in a field is of the kind that goes there. -/
theorem kind_mem_holders (h : Ready above role node) {field kind : String}
    (hholder : Node.holder? node.kind field = some kind) (hkind : kind ∈ holders) :
    ∀ child ∈ node.children, child.inField field = true → child.kind ∈ holders := by
  intro child hchild hin
  rw [Node.inField, beq_iff_eq] at hin
  rw [h.self.held child hchild field hin kind hholder]
  exact hkind

/-- A pattern without places for expressions holds nothing. -/
theorem apart_pattern (h : Ready above role node) {form : PatternForm}
    (hform : role.patternForm node.kind = form) (hslots : form.slots? = some []) :
    toMeet above node = 0 ∧ Site.isCallee ⟨node, above⟩ = false := by
  have hne : form ≠ .expression := by
    rintro rfl
    cases hslots
  obtain ⟨hrole, hform⟩ := Role.of_patternForm hform hne
  obtain ⟨haccess, hcall, -⟩ := of_patternForm hform hne
  have hnot := h.apart.resolve_left hrole
  rw [h.toMeet_eq_self haccess hcall (slots?_of_patternForm hform hslots), hnot]
  exact ⟨rfl, rfl⟩

end Ready

/-- One node at most stands in a field, and it is read. -/
structure FieldReady (above : List Node) (role : Role) (field : String) (nodes : List Node) : Prop where
  /-- one node at most stands in the field -/
  single : Single field nodes
  /-- it is read -/
  ready : ∀ node ∈ nodes, node.inField field = true → Ready above role node

theorem FieldReady.tail {above rest : List Node} {role : Role} {field : String} {node : Node}
    (h : FieldReady above role field (node :: rest)) : FieldReady above role field rest where
  single := h.single.tail
  ready other hother := h.ready other (.tail _ hother)

/-- A construct is read field by field: what is to be met at it stands in these fields, and each of them is
read. -/
structure ReadsFields (above : List Node) (node : Node) (fields : List String) : Prop where
  /-- all that is to be met stands in the fields -/
  toMeet_eq : toMeet above node =
    (fields.map fun field => atField (toMeet (node :: above)) field node.children).sum
  /-- every field is read, in whatever role -/
  ready : ∀ field ∈ fields, ∀ role, FieldReady (node :: above) role field node.children

/-- **A construct whose expressions stand in fields is read field by field**, if the fields are those that
are not left out. -/
theorem Ready.readsFields {above : List Node} {role : Role} {node : Node} (h : Ready above role node)
    (hkind : Inert node.kind) {slots : List Node.Slot} (hslots : slots? node.kind = some slots)
    {fields : List String} (hnodup : ("decorator" :: fields).Nodup)
    (hplaces : ∀ slot ∈ slots, ∃ field ∈ slot.field,
      field ∈ fields ∨ ∀ child, child.inField field = true → neglects node.kind child = true)
    (hread : ∀ field ∈ fields, (∃ slot ∈ slots, slot.field = some field) ∧
      ∀ child, child.inField field = true → neglects node.kind child = false) :
    ReadsFields above node fields := by
  obtain ⟨hname, haccess, hcall⟩ := hkind
  obtain ⟨hplain, hfields⟩ := List.nodup_cons.mp hnodup
  constructor
  · rw [toMeet_eq_sum hname]
    refine sum_eq_atFields hfields fun child hchild hne => ?_
    obtain ⟨hkept, slot, hslot, hadmits⟩ := h.exists_slot haccess hcall hslots hchild hne
    obtain ⟨field, hfield, hin | hskipped⟩ := hplaces slot hslot
    · exact ⟨field, hin, inField_of_admits hadmits hfield⟩
    · rw [hskipped child (inField_of_admits hadmits hfield)] at hkept
      cases hkept
  · intro field hfield role
    obtain ⟨⟨slot, hslot, hplace⟩, hkept⟩ := hread field hfield
    have hne : field ≠ "decorator" := fun heq => hplain (heq ▸ hfield)
    exact ⟨h.self.single slots hslots slot hslot field hplace hne,
      fun child hchild hin => h.below hchild (hkept child hin) (.inr haccess)⟩

/-! ## What the constructs hold -/

namespace Ready

variable {above : List Node} {role : Role} {node : Node}

theorem toMeet_importing (hform : Form.ofKind node.kind = .importing) : toMeet above node = 0 := by
  have hname : node.kind ≠ "identifier" := ne_identifier_of_form hform nofun
  rw [toMeet_eq_sum hname]
  refine List.sum_eq_zero fun value hvalue => ?_
  obtain ⟨child, -, rfl⟩ := List.mem_map.mp hvalue
  refine toMeet_eq_zero_of_forgotten ?_
  rw [forgotten, neglects, hform, Bool.true_or]

/-- The names of an export and the text of a module's name hold no call. -/
theorem toMeet_names (h : Ready above role node)
    (hkind : node.kind = "export_clause" ∨ node.kind = "string" ∨ node.kind = "namespace_export") :
    toMeet above node = 0 := by
  have hplain : Inert node.kind ∧ slots? node.kind = some [] := by
    rcases hkind with hkind | hkind | hkind
    all_goals rw [hkind]; exact ⟨⟨by decide, by decide, by decide⟩, rfl⟩
  obtain ⟨⟨hname, haccess, hcall⟩, hslots⟩ := hplain
  rw [h.toMeet_eq_self haccess hcall hslots]
  simp [Site.isCallee, hname]

/-- A construct that is read as a whole is read child by child. -/
theorem whole (h : Ready above role node) {form : Form} (hform : Form.ofKind node.kind = form)
    (hwhole : form.whole = true) (hname : form ≠ .name) :
    (∀ child ∈ node.children, Ready (node :: above) .expression child) ∧
      toMeet above node = (node.children.map fun child =>
        if child.named then toMeet (node :: above) child else 0).sum :=
  ⟨fun child hchild => h.below hchild (neglects_of_form hform hwhole child) (.inl rfl),
    h.toMeet_eq_sum_named (ne_identifier_of_form hform hname)⟩

/-- In a list of declarators nothing but a declarator holds anything. -/
theorem toMeet_of_not_declarator (h : Ready above role node) {hoisted : Bool}
    (hform : Form.ofKind node.kind = .declarators hoisted) {child : Node} (hchild : child ∈ node.children)
    (hother : ¬ (child.named = true ∧ child.kind = "variable_declarator")) :
    toMeet (node :: above) child = 0 := by
  obtain ⟨hslots, -, haccess, hcall⟩ := slots?_of_form hform rfl
  refine Classical.not_not.mp fun hne => hother ⟨?_, ?_⟩
  · exact (Bool.not_eq_false _).mp fun hmark => hne (h.toMeet_unnamed hchild hmark)
  · obtain ⟨-, slot, hslot, hadmits⟩ := h.exists_slot haccess hcall hslots hchild hne
    obtain rfl := List.mem_singleton.mp hslot
    exact kind_of_admits hadmits rfl

/-- A construct of which nothing is left out is read in all its fields. -/
theorem readsFields_of_whole (h : Ready above role node) (hkind : Inert node.kind)
    {slots : List Node.Slot} (hslots : slots? node.kind = some slots)
    (hread : ∀ child, neglects node.kind child = false) {fields : List String}
    (hfields : slots.map (·.field) = fields.map some) (hnodup : ("decorator" :: fields).Nodup) :
    ReadsFields above node fields := by
  refine h.readsFields hkind hslots hnodup (fun slot hslot => ?_) fun field hfield => ⟨?_, ?_⟩
  · have hmem : slot.field ∈ fields.map some := hfields ▸ List.mem_map_of_mem hslot
    obtain ⟨field, hfield, heq⟩ := List.mem_map.mp hmem
    exact ⟨field, heq.symm, .inl hfield⟩
  · have hmem : some field ∈ slots.map (·.field) := hfields ▸ List.mem_map_of_mem hfield
    exact List.mem_map.mp hmem
  · exact fun child _ => hread child

/-- So is a form of which nothing is left out. -/
theorem formFields (h : Ready above role node) {form : Form} (hform : Form.ofKind node.kind = form)
    {slots : List Node.Slot} (hslots : form.slots? = some slots) (hwhole : form.whole = true)
    {fields : List String} (hfields : slots.map (·.field) = fields.map some)
    (hnodup : ("decorator" :: fields).Nodup) : ReadsFields above node fields := by
  obtain ⟨hslots, hinert⟩ := slots?_of_form hform hslots
  exact h.readsFields_of_whole hinert hslots (neglects_of_form hform hwhole) hfields hnodup

theorem declarator (h : Ready above role node) (hkind : node.kind = "variable_declarator") :
    ReadsFields above node ["name", "value"] := by
  have hslots : slots? node.kind = some [⟨some "name", none⟩, ⟨some "value", none⟩] := by
    rw [hkind]
    rfl
  refine h.readsFields_of_whole ?_ hslots ?_ rfl (by decide)
  · rw [hkind]
    exact ⟨by decide, by decide, by decide⟩
  · rw [hkind]
    exact fun _ => rfl

/-- A pattern that is no single name is neither a name nor a part of a call. -/
theorem inert_of_pattern {form : PatternForm} (hform : PatternForm.ofKind node.kind = form)
    (hname : form ≠ .name) (hne : form ≠ .expression) : Inert node.kind :=
  ⟨ne_identifier_of_patternForm hform hname, (of_patternForm hform hne).1, (of_patternForm hform hne).2.1⟩

theorem pairPattern (h : Ready above role node) (hform : role.patternForm node.kind = .pair) :
    ReadsFields above node ["key", "value"] ∧
      ∀ child ∈ node.children, child.inField "key" = true → child.kind ≠ "computed_property_name" →
        toMeet (node :: above) child = 0 := by
  obtain ⟨-, hform⟩ := Role.of_patternForm hform nofun
  have hinert := inert_of_pattern hform nofun nofun
  have hslots := slots?_of_patternForm hform rfl
  exact ⟨h.readsFields_of_whole hinert hslots (of_patternForm hform nofun).2.2 rfl (by decide),
    h.toMeet_of_not_computed hinert hslots (by simp)⟩

theorem defaultPattern (h : Ready above role node) (hform : role.patternForm node.kind = .withDefault) :
    ReadsFields above node ["left", "right"] := by
  obtain ⟨-, hform⟩ := Role.of_patternForm hform nofun
  exact h.readsFields_of_whole (inert_of_pattern hform nofun nofun) (slots?_of_patternForm hform rfl)
    (of_patternForm hform nofun).2.2 rfl (by decide)

/-- A group of patterns is read child by child. -/
theorem group (h : Ready above role node) (hform : role.patternForm node.kind = .group) :
    (∀ child ∈ node.children, Ready (node :: above) role child) ∧
      toMeet above node = (node.children.map fun child =>
        if child.named then toMeet (node :: above) child else 0).sum := by
  obtain ⟨-, hform⟩ := Role.of_patternForm hform nofun
  obtain ⟨haccess, -, hread⟩ := of_patternForm hform nofun
  exact ⟨fun child hchild => h.below hchild (hread child) (.inr haccess),
    h.toMeet_eq_sum_named (ne_identifier_of_patternForm hform nofun)⟩

/-- A loop over keys is read without the initial value of its name. -/
theorem forIn (h : Ready above role node) (hform : Form.ofKind node.kind = .forIn) :
    ReadsFields above node ["left", "right", "body"] := by
  obtain ⟨hslots, hinert⟩ := slots?_of_form hform rfl
  refine h.readsFields hinert hslots (by decide) ?_ ?_
  · simp [Node.forInSlots, neglects, hform]
  · simp +contextual [Node.forInSlots, Node.inField, neglects, hform]

/-- A function is read without its decorators. -/
theorem function (h : Ready above role node) {isDeclared : Bool}
    (hform : Form.ofKind node.kind = .function isDeclared) :
    ReadsFields above node ["name", "parameters", "parameter", "body"] ∧
      ∀ child ∈ node.children, child.inField "name" = true → child.kind ≠ "computed_property_name" →
        toMeet (node :: above) child = 0 := by
  obtain ⟨hslots, hinert⟩ := slots?_of_form hform rfl
  refine ⟨h.readsFields hinert hslots (by decide) ?_ ?_,
    h.toMeet_of_not_computed hinert hslots (by simp [Node.functionSlots])⟩
  · simp [Node.functionSlots, neglects, hform]
  · simp +contextual [Node.functionSlots, Node.inField, neglects, hform]

/-- What a class holds stands in its heritage clauses and in its body. -/
theorem toMeet_class (h : Ready above role node) {isDeclared : Bool}
    (hform : Form.ofKind node.kind = .classBody isDeclared) :
    toMeet above node = (node.children.map fun child =>
        if child.named && child.kind == "class_heritage" then toMeet (node :: above) child else 0).sum +
      atField (toMeet (node :: above)) "body" node.children := by
  obtain ⟨hslots, hname, haccess, hcall⟩ := slots?_of_form hform rfl
  rw [toMeet_eq_sum hname, atField, ← List.sum_map_add]
  refine congrArg List.sum (List.map_congr_left fun child hchild => ?_)
  by_cases hzero : toMeet (node :: above) child = 0
  · simp [hzero]
  · obtain ⟨hread, slot, hslot, hadmits⟩ := h.exists_slot haccess hcall hslots hchild hzero
    have hnamed : child.named = true :=
      (Bool.not_eq_false _).mp fun hmark => hzero (h.toMeet_unnamed hchild hmark)
    simp only [Node.classSlots, List.mem_cons, List.not_mem_nil, or_false] at hslot
    rcases hslot with rfl | rfl | rfl
    · rw [neglects, hform, inField_of_admits hadmits rfl] at hread
      cases hread
    · have hfield : child.inField "body" = false := by
        rw [Node.Slot.admits, Bool.and_eq_true, beq_iff_eq] at hadmits
        rw [Node.inField, hadmits.1]
        rfl
      simp [hnamed, kind_of_admits hadmits rfl, hfield]
    · simp [kind_of_admits hadmits rfl, inField_of_admits hadmits rfl]

/-- The heritage clauses and the body of a class are read. -/
theorem heritage (h : Ready above role node) {isDeclared : Bool}
    (hform : Form.ofKind node.kind = .classBody isDeclared) :
    ∀ child ∈ node.children, child.kind = "class_heritage" → Ready (node :: above) .expression child := by
  intro child hchild hkind
  refine h.below hchild ?_ (.inl rfl)
  rw [neglects, hform]
  refine (Bool.not_eq_true _).mp fun (hin : child.inField "decorator" = true) => ?_
  rw [Node.inField, beq_iff_eq] at hin
  have hdecorator := h.self.held child hchild _ hin _ (Node.holder?_decorator _)
  rw [hkind] at hdecorator
  exact absurd hdecorator (by decide)

theorem classBody (h : Ready above role node) {isDeclared : Bool}
    (hform : Form.ofKind node.kind = .classBody isDeclared) :
    FieldReady (node :: above) .expression "body" node.children := by
  obtain ⟨hslots, -, haccess, -⟩ := slots?_of_form hform rfl
  have hplace : (⟨some "body", some "class_body"⟩ : Node.Slot) ∈ Node.classSlots :=
    .tail _ (.tail _ (.head _))
  refine ⟨h.self.single _ hslots _ hplace "body" rfl (by decide), fun child hchild hin => ?_⟩
  refine h.below hchild ?_ (.inr haccess)
  rw [neglects, hform]
  exact inField_eq_false hin (by decide)

end Ready

end Outline

end LoggerLint
