import LoggerLint.Proofs.Scope.Frame
import LoggerLint.Proofs.Scope.Partition
import LoggerLint.Proofs.Scope.Places
import LoggerLint.Script.Program
import Mathlib.Algebra.Order.BigOperators.Group.List
import Mathlib.Data.Multiset.OrderedMonoid

/-!
# Nothing is recorded twice

The nodes that an outline uses and the nodes whose names it declares are taken from the tree that it is read
from, and no place of the tree is taken twice (`Outline.TakenFrom`). The proof follows the functions that read a
tree. Each takes from some of the places below its node, and what it takes from fits together because the fields
of a node are different children of it; the one exception is a class whose body is a heritage clause too
(`Node.BodyApart`).

Playing an outline enters each of its declarations once (`Item.allDefinitions_playAll`), so the same holds of the
uses and the definitions of a file (`ScopeTree.recorded_once`).
-/

namespace LoggerLint

/-- In a class the body is no heritage clause. -/
def Node.BodyApart (node : Node) : Prop :=
  node.kind = "class_declaration" ∨ node.kind = "class" →
    ∀ body ∈ node.child? "body", body.kind ≠ "class_heritage"

instance (node : Node) : Decidable node.BodyApart :=
  inferInstanceAs (Decidable (_ → _))

namespace Outline

open Node (sitesBelow sitesBelow_eq)

/-! ## Places of a node -/

/-- The place of a node alone. -/
def ownPlace (above : List Node) (node : Node) : Multiset Site :=
  {⟨node, above⟩}

/-- The places at and below a node. -/
def places (above : List Node) (node : Node) : Multiset Site :=
  sitesBelow above node

/-- The places below a node. -/
def innerPlaces (above : List Node) (node : Node) : Multiset Site :=
  (node.children.map (places (node :: above))).sum

theorem places_eq (above : List Node) (node : Node) :
    places above node = ownPlace above node + innerPlaces above node := by
  have hsum : (node.children.flatMap (sitesBelow (node :: above)) : Multiset Site) =
      innerPlaces above node := by
    rw [innerPlaces]
    induction node.children with
    | nil => rfl
    | cons child rest ih =>
      rw [List.flatMap_cons, ← Multiset.coe_add, ih, List.map_cons, List.sum_cons]
      rfl
  rw [places, sitesBelow_eq, ← Multiset.cons_coe, hsum, ownPlace, Multiset.singleton_add]

theorem ownPlace_le (above : List Node) (node : Node) : ownPlace above node ≤ places above node := by
  rw [places_eq]
  exact Multiset.le_add_right _ _

theorem innerPlaces_le (above : List Node) (node : Node) : innerPlaces above node ≤ places above node := by
  rw [places_eq]
  exact Multiset.le_add_left _ _

/-! ## Sums over fields -/

variable {value other : Node → Multiset Site} {field : String} {nodes : List Node}

/-- What the first node in a field gives. -/
def atFirst (value : Node → Multiset Site) (field : String) (nodes : List Node) : Multiset Site :=
  ((nodes.find? (·.inField field)).map value).getD 0

theorem atFirst_cons (value : Node → Multiset Site) (field : String) (node : Node) (rest : List Node) :
    atFirst value field (node :: rest) = if node.inField field then value node else atFirst value field rest := by
  by_cases h : node.inField field = true
  · simp [atFirst, h]
  · simp [atFirst, h]

theorem atFirst_add (field : String) (nodes : List Node) :
    atFirst (fun node => value node + other node) field nodes =
      atFirst value field nodes + atFirst other field nodes := by
  induction nodes with
  | nil => exact (add_zero _).symm
  | cons node rest ih =>
    rw [atFirst_cons, atFirst_cons, atFirst_cons]
    split
    · rfl
    · exact ih

theorem atFirst_mono (h : ∀ node, value node ≤ other node) (field : String) (nodes : List Node) :
    atFirst value field nodes ≤ atFirst other field nodes := by
  induction nodes with
  | nil => exact le_rfl
  | cons node rest ih =>
    rw [atFirst_cons, atFirst_cons]
    split
    · exact h node
    · exact ih

/-- The first node in a field gives no more than all nodes in it. -/
theorem atFirst_le_atField (value : Node → Multiset Site) (field : String) (nodes : List Node) :
    atFirst value field nodes ≤ atField value field nodes := by
  induction nodes with
  | nil => exact le_rfl
  | cons node rest ih =>
    rw [atFirst_cons, atField, List.map_cons, List.sum_cons]
    split
    · exact Multiset.le_add_right _ _
    · rw [zero_add]
      exact ih

theorem sum_atField_le {fields : List String} (hfields : fields.Nodup) (value : Node → Multiset Site)
    (nodes : List Node) :
    (fields.map fun field => atField value field nodes).sum ≤ (nodes.map value).sum := by
  induction nodes with
  | nil => simp [atField]
  | cons node rest ih =>
    simp only [atField, List.map_cons, List.sum_cons] at ih ⊢
    rw [List.sum_map_add, sum_ite_inField hfields]
    refine add_le_add ?_ ih
    split
    · exact le_rfl
    · exact Multiset.zero_le _

/-- **Different fields are different nodes**: together they give no more than all nodes do. -/
theorem sum_atFirst_le {fields : List String} (hfields : fields.Nodup) (value : Node → Multiset Site)
    (nodes : List Node) :
    (fields.map fun field => atFirst value field nodes).sum ≤ (nodes.map value).sum :=
  (List.sum_le_sum fun field _ => atFirst_le_atField value field nodes).trans
    (sum_atField_le hfields value nodes)

theorem sum_filter_le (p : Node → Bool) (value : Node → Multiset Site) (nodes : List Node) :
    ((nodes.filter p).map value).sum ≤ (nodes.map value).sum :=
  (List.filter_sublist.map value).sum_le_sum fun _ _ => Multiset.zero_le _

theorem places_le_innerPlaces {above : List Node} {node child : Node} (h : child ∈ node.children) :
    places (node :: above) child ≤ innerPlaces above node :=
  List.le_sum_of_mem (List.mem_map_of_mem h)

/-! ## Items that are taken from places -/

/-- The kinds of node that are used as names. -/
def usedKinds : List String :=
  ["identifier", "shorthand_property_identifier", "shorthand_property_identifier_pattern"]

/-- The nodes that items use and the nodes whose names they declare stand at different places, all of them among
the given ones; what is used is a name. -/
structure TakenFrom (items : List Item) (given : Multiset Site) : Prop where
  /-- what is used is a name -/
  kind_mem : ∀ use ∈ Item.sitesAll items, use.2.node.kind ∈ usedKinds
  /-- every place is taken at most once -/
  once : ∃ names : Multiset Site,
    names.map (·.node) = ((Item.declarationsAll items).map fun declaration => declaration.2.2 : List Node) ∧
      ((Item.sitesAll items).map Prod.snd : List Site) + names ≤ given

namespace TakenFrom

variable {source : Bytes} {above : List Node} {items more : List Item} {given rest : Multiset Site}

theorem nil (given : Multiset Site) : TakenFrom [] given where
  kind_mem := nofun
  once := ⟨0, rfl, Multiset.zero_le _⟩

theorem mono (h : TakenFrom items given) (hle : given ≤ rest) : TakenFrom items rest where
  kind_mem := h.kind_mem
  once := by
    obtain ⟨names, hnames, htaken⟩ := h.once
    exact ⟨names, hnames, htaken.trans hle⟩

theorem append (hitems : TakenFrom items given) (hmore : TakenFrom more rest) :
    TakenFrom (items ++ more) (given + rest) where
  kind_mem use huse := by
    rw [Item.sitesAll_append, List.mem_append] at huse
    exact huse.elim (hitems.kind_mem use) (hmore.kind_mem use)
  once := by
    obtain ⟨names, hnames, htaken⟩ := hitems.once
    obtain ⟨names', hnames', htaken'⟩ := hmore.once
    refine ⟨names + names', ?_, ?_⟩
    · rw [Multiset.map_add, hnames, hnames', Item.declarationsAll_append, List.map_append, Multiset.coe_add]
    · rw [Item.sitesAll_append, List.map_append, ← Multiset.coe_add, add_add_add_comm]
      exact add_le_add htaken htaken'

theorem scope (h : TakenFrom items given) (kind : ScopeKind) (node : Node) :
    TakenFrom [.scope kind node items] given := by
  have hsites : Item.sitesAll [.scope kind node items] = Item.sitesAll items := by
    simp [Item.sitesAll, Item.sites]
  have hnames : Item.declarationsAll [.scope kind node items] = Item.declarationsAll items := by
    simp [Item.declarationsAll, Item.declarations]
  refine ⟨?_, ?_⟩
  · rw [hsites]
    exact h.kind_mem
  · rw [hsites, hnames]
    exact h.once

theorem flatMap {α : Type} {items : α → List Item} {value : α → Multiset Site} {xs : List α}
    (h : ∀ x ∈ xs, TakenFrom (items x) (value x)) : TakenFrom (xs.flatMap items) (xs.map value).sum := by
  induction xs with
  | nil => exact nil _
  | cons x rest ih =>
    rw [List.flatMap_cons, List.map_cons, List.sum_cons]
    exact (h x (.head _)).append (ih fun y hy => h y (.tail _ hy))

/-! ## Single names -/

theorem useOf {node : Node} (hkind : node.kind ∈ usedKinds) :
    TakenFrom [useOf source above node] (ownPlace above node) where
  kind_mem use huse := by
    obtain rfl : use = (node.text source, ⟨node, above⟩) := by
      simpa [Outline.useOf, Item.sitesAll, Item.sites] using huse
    exact hkind
  once := ⟨0, rfl, le_of_eq (add_zero _)⟩

theorem declared (binder : Binder) (above : List Node) (nameNode : Node) :
    TakenFrom (declared source binder nameNode) (ownPlace above nameNode) := by
  rw [Outline.declared]
  split
  · exact nil _
  · exact ⟨nofun, ownPlace above nameNode, rfl, le_of_eq (zero_add _)⟩

theorem declaredName (binder : Binder) (above : List Node) (node : Node) :
    TakenFrom (declaredName source binder node) (atFirst (ownPlace (node :: above)) "name" node.children) := by
  rw [Outline.declaredName, atFirst, ← Node.child?]
  rcases node.child? "name" with _ | name
  · exact nil _
  · exact declared binder _ name

theorem declaredIdentifier (binder : Binder) (above : List Node) (node : Node) :
    TakenFrom (declaredIdentifier source binder node)
      (atFirst (ownPlace (node :: above)) "name" node.children) := by
  rw [Outline.declaredIdentifier, atFirst, ← Node.child?]
  rcases node.child? "name" with _ | name
  · exact nil _
  · simp only [Option.map_some, Option.getD_some]
    split
    · exact declared binder _ name
    · exact nil _

/-- A declared function or class gives its name away; its place is not taken again inside. -/
theorem outerName (isDeclared : Bool) (binder : Binder) (above : List Node) (node : Node) :
    TakenFrom (if isDeclared then Outline.declaredName source binder node else [])
      (if isDeclared then atFirst (ownPlace (node :: above)) "name" node.children else 0) := by
  cases isDeclared with
  | true => exact declaredName binder above node
  | false => exact nil _

theorem innerName (isDeclared : Bool) (binder : Binder) (above : List Node) (node : Node) :
    TakenFrom (if isDeclared then [] else Outline.declaredIdentifier source binder node)
      (if isDeclared then 0 else atFirst (ownPlace (node :: above)) "name" node.children) := by
  cases isDeclared with
  | true => exact nil _
  | false => exact declaredIdentifier binder above node

theorem named {role : Role} {node : Node} (hform : role.patternForm node.kind = .name) :
    TakenFrom (named source above role node) (ownPlace above node) := by
  cases role with
  | expression => cases hform
  | binding binder => exact declared binder above node
  | target =>
    refine useOf ?_
    have hname : PatternForm.ofKind node.kind = .name := hform
    generalize node.kind = kind at hname
    unfold PatternForm.ofKind at hname
    split at hname
    all_goals first
      | decide
      | cases hname

/-! ## Imports and exports -/

theorem localName (binder : Binder) (above : List Node) (specifier : Node) :
    TakenFrom ((localName? specifier).toList.flatMap (Outline.declared source binder))
      (innerPlaces above specifier) := by
  rcases hlocal : localName? specifier with _ | name
  · exact nil _
  · have hchild : name ∈ specifier.children := by
      rw [localName?] at hlocal
      split at hlocal
      · have hname := (Option.filter_eq_some_iff.mp hlocal).1
        rcases halias : specifier.child? "alias" with _ | other
        · rw [halias] at hname
          exact Node.mem_children_of_child? hname
        · rw [halias] at hname
          exact Node.mem_children_of_child? (halias.trans hname)
      · cases hlocal
    rw [Option.toList_some, List.flatMap_singleton]
    exact (declared binder _ name).mono ((ownPlace_le _ _).trans (places_le_innerPlaces hchild))

theorem importedNames (binder : Binder) (above : List Node) (item : Node) :
    TakenFrom ((importedNames item).flatMap (Outline.declared source binder)) (places above item) := by
  rw [Outline.importedNames]
  split
  · rw [List.flatMap_singleton]
    exact (declared binder above item).mono (ownPlace_le _ _)
  · refine mono (flatMap fun name _ => declared binder (item :: above) name) ?_
    refine le_trans ?_ (innerPlaces_le above item)
    refine (sum_filter_le _ _ _).trans ((sum_filter_le _ _ _).trans ?_)
    exact List.sum_le_sum fun name _ => ownPlace_le _ name
  · rw [List.filterMap_eq_flatMap_toList, List.flatMap_assoc]
    refine mono (flatMap fun specifier _ => localName binder (item :: above) specifier) ?_
    refine le_trans ?_ (innerPlaces_le above item)
    exact (sum_filter_le _ _ _).trans (List.sum_le_sum fun specifier _ => innerPlaces_le _ specifier)
  · exact nil _

theorem imported (above : List Node) (node : Node) :
    TakenFrom (imported source node) (places above node) := by
  have hclause : ∀ clause : Node, TakenFrom
      ((clause.namedChildren.flatMap Outline.importedNames).flatMap
        (Outline.declared source ⟨.importBinding, node, false⟩))
      (places (node :: above) clause) := by
    intro clause
    rw [List.flatMap_assoc]
    refine mono (flatMap fun item _ => importedNames _ (clause :: node :: above) item) ?_
    exact (sum_filter_le _ _ _).trans (innerPlaces_le (node :: above) clause)
  rw [Outline.imported, List.flatMap_assoc]
  refine mono (flatMap fun clause _ => hclause clause) ?_
  exact ((sum_filter_le _ _ _).trans (sum_filter_le _ _ _)).trans (innerPlaces_le above node)

theorem exportedNames (above : List Node) (clause : Node) :
    TakenFrom (exportedNames source above clause) (places above clause) := by
  have hspecifier : ∀ specifier : Node, TakenFrom
      (((specifier.child? "name").filter (·.kind == "identifier")).map
        (Outline.useOf source (specifier :: clause :: above))).toList
      (innerPlaces (clause :: above) specifier) := by
    intro specifier
    cases hname : (specifier.child? "name").filter (·.kind == "identifier") with
    | none => exact nil _
    | some name =>
      obtain ⟨hchild, hkind⟩ := Option.filter_eq_some_iff.mp hname
      rw [beq_iff_eq] at hkind
      rw [Option.map_some, Option.toList_some]
      refine (useOf (by simp [usedKinds, hkind])).mono ?_
      exact (ownPlace_le _ _).trans (places_le_innerPlaces (Node.mem_children_of_child? hchild))
  rw [Outline.exportedNames, List.filterMap_eq_flatMap_toList]
  refine mono (flatMap fun specifier _ => hspecifier specifier) ?_
  refine le_trans ?_ (innerPlaces_le above clause)
  refine (sum_filter_le _ _ _).trans ((sum_filter_le _ _ _).trans ?_)
  exact List.sum_le_sum fun specifier _ => innerPlaces_le _ specifier

end TakenFrom

/-! ## What the constructs may take -/

section

variable (above : List Node) (node : Node)

/-- The fields of a node fit together below it. -/
theorem fields_le (fields : List String) (hfields : fields.Nodup) :
    (fields.map fun field => atFirst (places (node :: above)) field node.children).sum ≤ places above node :=
  (sum_atFirst_le hfields _ _).trans (innerPlaces_le above node)

theorem atFirst_inner_le (field : String) :
    atFirst (innerPlaces (node :: above)) field node.children ≤
      atFirst (places (node :: above)) field node.children :=
  atFirst_mono (innerPlaces_le _) _ _

theorem two_fields_le {first second : String} (hne : first ≠ second) :
    atFirst (places (node :: above)) first node.children +
      atFirst (places (node :: above)) second node.children ≤ places above node := by
  simpa using fields_le above node [first, second] (by simp [hne])

theorem loop_le :
    atFirst (places (node :: above)) "left" node.children +
      atFirst (places (node :: above)) "right" node.children +
      atFirst (places (node :: above)) "body" node.children ≤ places above node := by
  simpa [add_assoc] using fields_le above node ["left", "right", "body"] (by decide)

/-- The name of a function is declared at its place, outside or inside; what is computed in it stands below. -/
theorem function_le (isDeclared : Bool) :
    (if isDeclared then atFirst (ownPlace (node :: above)) "name" node.children else 0) +
        atFirst (innerPlaces (node :: above)) "name" node.children +
      ((if isDeclared then 0 else atFirst (ownPlace (node :: above)) "name" node.children) +
        atFirst (innerPlaces (node :: above)) "parameters" node.children +
        atFirst (places (node :: above)) "parameter" node.children +
        atFirst (places (node :: above)) "body" node.children) ≤ places above node := by
  have hname : atFirst (places (node :: above)) "name" node.children =
      atFirst (ownPlace (node :: above)) "name" node.children +
        atFirst (innerPlaces (node :: above)) "name" node.children := by
    rw [← atFirst_add]
    simp only [← places_eq]
  have hfields := fields_le above node ["name", "parameters", "parameter", "body"] (by decide)
  simp only [List.map_cons, List.map_nil, List.sum_cons, List.sum_nil, add_zero, hname] at hfields
  refine le_trans ?_ hfields
  have hparameters := atFirst_inner_le above node "parameters"
  cases isDeclared with
  | true =>
    simp only [if_true, zero_add, add_assoc]
    gcongr
  | false =>
    simp only [Bool.false_eq_true, if_false, zero_add, add_assoc]
    rw [add_left_comm]
    gcongr

end

/-- The heritage clauses of a class and its body are different nodes. -/
theorem heritage_add_body_le (value : Node → Multiset Site) {nodes : List Node}
    (hbody : ∀ body ∈ nodes.find? (·.inField "body"), body.kind ≠ "class_heritage") :
    (nodes.map fun node => if node.kind = "class_heritage" then value node else 0).sum +
      atFirst value "body" nodes ≤ (nodes.map value).sum := by
  have hite : ∀ node : Node, (if node.kind = "class_heritage" then value node else 0) ≤ value node := by
    intro node
    split
    · exact le_rfl
    · exact Multiset.zero_le _
  induction nodes with
  | nil => exact le_rfl
  | cons node rest ih =>
    rw [List.map_cons, List.sum_cons, List.map_cons, List.sum_cons, atFirst_cons]
    by_cases hin : node.inField "body" = true
    · have hkind : node.kind ≠ "class_heritage" := hbody node (List.find?_cons_of_pos hin)
      rw [if_neg hkind, if_pos hin, zero_add, add_comm]
      exact add_le_add_right (List.sum_le_sum fun other _ => hite other) _
    · have hrest := ih fun body hfound => hbody body (by simpa [hin] using hfound)
      rw [if_neg hin, add_assoc]
      exact add_le_add (hite node) hrest

/-- The name of a class is declared at its place, outside or inside; its heritage clauses and its body are read
below theirs. -/
theorem class_le (isDeclared : Bool) {above : List Node} {node : Node}
    (hbody : ∀ body ∈ node.child? "body", body.kind ≠ "class_heritage") :
    (if isDeclared then atFirst (ownPlace (node :: above)) "name" node.children else 0) +
        (node.children.map fun child =>
          if child.kind = "class_heritage" then innerPlaces (node :: above) child else 0).sum +
      ((if isDeclared then 0 else atFirst (ownPlace (node :: above)) "name" node.children) +
        atFirst (innerPlaces (node :: above)) "body" node.children) ≤ places above node := by
  have hsum : (node.children.map (places (node :: above))).sum =
      (node.children.map (ownPlace (node :: above))).sum +
        (node.children.map (innerPlaces (node :: above))).sum := by
    rw [← List.sum_map_add]
    simp only [← places_eq]
  have hname : atFirst (ownPlace (node :: above)) "name" node.children ≤
      (node.children.map (ownPlace (node :: above))).sum := by
    simpa using sum_atFirst_le (List.nodup_singleton "name") (ownPlace (node :: above)) node.children
  have hread := heritage_add_body_le (innerPlaces (node :: above)) hbody
  refine le_trans ?_ (innerPlaces_le above node)
  rw [innerPlaces, hsum]
  refine le_trans ?_ (add_le_add hname hread)
  cases isDeclared with
  | true =>
    simp only [if_true, zero_add, add_assoc]
    exact le_rfl
  | false =>
    simp only [Bool.false_eq_true, if_false, zero_add]
    rw [add_left_comm]

/-! ## Nodes that are read

One theorem for each of the functions that read a tree: what they read is taken from the places of the nodes they
read. -/

theorem usedKinds_of_name {kind : String} (h : Form.ofKind kind = .name) : kind ∈ usedKinds := by
  unfold Form.ofKind at h
  split at h
  all_goals first
    | decide
    | cases h

theorem kind_of_classBody {kind : String} {isDeclared : Bool} (h : Form.ofKind kind = .classBody isDeclared) :
    kind = "class_declaration" ∨ kind = "class" := by
  unfold Form.ofKind at h
  split at h
  all_goals first
    | exact .inl rfl
    | exact .inr rfl
    | cases h

/-- At and below a node no class has a heritage clause for its body. -/
def Apart (above : List Node) (node : Node) : Prop :=
  ∀ site ∈ sitesBelow above node, site.node.BodyApart

theorem Apart.self {above : List Node} {node : Node} (h : Apart above node) : node.BodyApart :=
  h ⟨node, above⟩ (Node.self_mem_sitesBelow above node)

theorem Apart.below {above : List Node} {node : Node} (h : Apart above node) :
    ∀ child ∈ node.children, Apart (node :: above) child := by
  intro child hchild site hsite
  refine h site ?_
  rw [sitesBelow_eq]
  exact .tail _ (List.mem_flatMap.mpr ⟨child, hchild, hsite⟩)

variable {source : Bytes}

mutual

/-- **What a node means for scoping is taken from its places**, whatever the role in which it is read. -/
theorem takenFrom_read (above : List Node) (role : Role) :
    (node : Node) → Apart above node → TakenFrom (read source above role node) (places above node)
  | ⟨label, children⟩, h => by
    have hbelow := h.below
    rw [read]
    cases hpattern : role.patternForm label.kind with
    | name => exact (TakenFrom.named hpattern).mono (ownPlace_le _ _)
    | group => exact (takenFrom_readAll _ role children hbelow).mono (innerPlaces_le _ _)
    | pair =>
      have hfields := two_fields_le above ⟨label, children⟩ (show "key" ≠ "value" by decide)
      refine ((takenFrom_readComputed _ "key" children hbelow).append
        (takenFrom_readField _ role "value" children hbelow)).mono ?_
      exact (add_le_add (atFirst_inner_le above ⟨label, children⟩ "key") le_rfl).trans hfields
    | withDefault =>
      exact ((takenFrom_readField _ role "left" children hbelow).append
        (takenFrom_readField _ .expression "right" children hbelow)).mono
          (two_fields_le above ⟨label, children⟩ (by decide))
    | comment => exact .nil _
    | expression =>
      cases hform : Form.ofKind label.kind with
      | name =>
        have hkind : (Node.mk label children).kind ∈ usedKinds := usedKinds_of_name hform
        exact (TakenFrom.useOf hkind).mono (ownPlace_le _ _)
      | importing => exact .imported above ⟨label, children⟩
      | exporting => exact (takenFrom_readExported _ _ children hbelow).mono (innerPlaces_le _ _)
      | declarators hoisted =>
        exact (takenFrom_readDeclarators _ hoisted children hbelow).mono (innerPlaces_le _ _)
      | function isDeclared =>
        refine (((TakenFrom.outerName isDeclared _ above ⟨label, children⟩).append
          (takenFrom_readComputed _ "name" children hbelow)).append (.scope ?_ _ _)).mono
            (function_le above ⟨label, children⟩ isDeclared)
        exact (((TakenFrom.innerName isDeclared _ above ⟨label, children⟩).append
          (takenFrom_readWithin _ _ "parameters" children hbelow)).append
          (takenFrom_readField _ _ "parameter" children hbelow)).append
          (takenFrom_readBody _ children hbelow)
      | classBody isDeclared =>
        refine (((TakenFrom.outerName isDeclared _ above ⟨label, children⟩).append
          (takenFrom_readHeritage _ children hbelow)).append (.scope ?_ _ _)).mono
            (class_le isDeclared (h.self (kind_of_classBody hform)))
        exact (TakenFrom.innerName isDeclared _ above ⟨label, children⟩).append
          (takenFrom_readWithin _ _ "body" children hbelow)
      | block => exact ((takenFrom_readAll _ .expression children hbelow).scope _ _).mono (innerPlaces_le _ _)
      | forLoop => exact ((takenFrom_readAll _ .expression children hbelow).scope _ _).mono (innerPlaces_le _ _)
      | forIn =>
        refine ((((takenFrom_readField _ _ "left" children hbelow).append
          (takenFrom_readField _ .expression "right" children hbelow)).append
          (takenFrom_readField _ .expression "body" children hbelow)).scope _ _).mono ?_
        exact loop_le above ⟨label, children⟩
      | catchClause =>
        refine (((takenFrom_readField _ _ "parameter" children hbelow).append
          (takenFrom_readField _ .expression "body" children hbelow)).scope _ _).mono ?_
        exact two_fields_le above ⟨label, children⟩ (by decide)
      | switchStatement =>
        have hfields := two_fields_le above ⟨label, children⟩ (show "value" ≠ "body" by decide)
        refine ((takenFrom_readField _ .expression "value" children hbelow).append
          (takenFrom_readSwitchBody _ children hbelow)).mono ?_
        exact (add_le_add le_rfl (atFirst_inner_le above ⟨label, children⟩ "body")).trans hfields
      | assignment =>
        exact ((takenFrom_readTarget _ children hbelow).append
          (takenFrom_readField _ .expression "right" children hbelow)).mono
            (two_fields_le above ⟨label, children⟩ (by decide))
      | other => exact (takenFrom_readAll _ .expression children hbelow).mono (innerPlaces_le _ _)
termination_by structural node => node

theorem takenFrom_readAll (above : List Node) (role : Role) :
    (nodes : List Node) → (∀ node ∈ nodes, Apart above node) →
      TakenFrom (readAll source above role nodes) (nodes.map (places above)).sum
  | [], _ => .nil _
  | node :: rest, h => by
    obtain ⟨hnode, hrest⟩ := List.forall_mem_cons.mp h
    rw [readAll, List.map_cons, List.sum_cons]
    exact (of_ite (P := fun items => TakenFrom items _) (fun _ => takenFrom_read above role node hnode)
      fun _ => .nil _).append (takenFrom_readAll above role rest hrest)
termination_by structural nodes => nodes

theorem takenFrom_readField (above : List Node) (role : Role) (field : String) :
    (nodes : List Node) → (∀ node ∈ nodes, Apart above node) →
      TakenFrom (readField source above role field nodes) (atFirst (places above) field nodes)
  | [], _ => .nil _
  | node :: rest, h => by
    obtain ⟨hnode, hrest⟩ := List.forall_mem_cons.mp h
    rw [readField, atFirst_cons]
    split
    · exact takenFrom_read above role node hnode
    · exact takenFrom_readField above role field rest hrest
termination_by structural nodes => nodes

theorem takenFrom_readWithin (above : List Node) (role : Role) (field : String) :
    (nodes : List Node) → (∀ node ∈ nodes, Apart above node) →
      TakenFrom (readWithin source above role field nodes) (atFirst (innerPlaces above) field nodes)
  | [], _ => .nil _
  | ⟨label, children⟩ :: rest, h => by
    obtain ⟨hnode, hrest⟩ := List.forall_mem_cons.mp h
    rw [readWithin, atFirst_cons, Node.inField, Node.label]
    split
    · exact takenFrom_readAll _ role children hnode.below
    · exact takenFrom_readWithin above role field rest hrest
termination_by structural nodes => nodes

theorem takenFrom_readComputed (above : List Node) (field : String) :
    (nodes : List Node) → (∀ node ∈ nodes, Apart above node) →
      TakenFrom (readComputed source above field nodes) (atFirst (innerPlaces above) field nodes)
  | [], _ => .nil _
  | ⟨label, children⟩ :: rest, h => by
    obtain ⟨hnode, hrest⟩ := List.forall_mem_cons.mp h
    rw [readComputed, atFirst_cons]
    split
    · split
      · rename_i hkind
        have hform : Form.ofKind label.kind = .other := by
          rw [beq_iff_eq] at hkind
          rw [show label.kind = "computed_property_name" from hkind]
          rfl
        rw [read]
        simp only [Role.patternForm, hform]
        exact takenFrom_readAll _ .expression children hnode.below
      · exact .nil _
    · exact takenFrom_readComputed above field rest hrest
termination_by structural nodes => nodes

theorem takenFrom_readBody (above : List Node) :
    (nodes : List Node) → (∀ node ∈ nodes, Apart above node) →
      TakenFrom (readBody source above nodes) (atFirst (places above) "body" nodes)
  | [], _ => .nil _
  | ⟨label, children⟩ :: rest, h => by
    obtain ⟨hnode, hrest⟩ := List.forall_mem_cons.mp h
    rw [readBody, atFirst_cons, Node.inField, Node.label]
    split
    · split
      · exact (takenFrom_readAll _ .expression children hnode.below).mono (innerPlaces_le _ _)
      · exact takenFrom_read above .expression ⟨label, children⟩ hnode
    · exact takenFrom_readBody above rest hrest
termination_by structural nodes => nodes

theorem takenFrom_readHeritage (above : List Node) :
    (nodes : List Node) → (∀ node ∈ nodes, Apart above node) →
      TakenFrom (readHeritage source above nodes)
        (nodes.map fun node => if node.kind = "class_heritage" then innerPlaces above node else 0).sum
  | [], _ => .nil _
  | ⟨label, children⟩ :: rest, h => by
    obtain ⟨hnode, hrest⟩ := List.forall_mem_cons.mp h
    rw [readHeritage, List.map_cons, List.sum_cons]
    refine .append ?_ (takenFrom_readHeritage above rest hrest)
    split
    · rename_i hkind
      rw [Bool.and_eq_true, beq_iff_eq] at hkind
      rw [if_pos (show (Node.mk label children).kind = _ from hkind.2)]
      exact takenFrom_readAll _ .expression children hnode.below
    · exact .nil _
termination_by structural nodes => nodes

theorem takenFrom_readSwitchBody (above : List Node) :
    (nodes : List Node) → (∀ node ∈ nodes, Apart above node) →
      TakenFrom (readSwitchBody source above nodes) (atFirst (innerPlaces above) "body" nodes)
  | [], _ => .nil _
  | ⟨label, children⟩ :: rest, h => by
    obtain ⟨hnode, hrest⟩ := List.forall_mem_cons.mp h
    rw [readSwitchBody, atFirst_cons, Node.inField, Node.label]
    split
    · exact (takenFrom_readAll _ .expression children hnode.below).scope _ _
    · exact takenFrom_readSwitchBody above rest hrest
termination_by structural nodes => nodes

theorem takenFrom_readTarget (above : List Node) :
    (nodes : List Node) → (∀ node ∈ nodes, Apart above node) →
      TakenFrom (readTarget source above nodes) (atFirst (places above) "left" nodes)
  | [], _ => .nil _
  | node :: rest, h => by
    obtain ⟨hnode, hrest⟩ := List.forall_mem_cons.mp h
    rw [readTarget, atFirst_cons]
    split
    · exact takenFrom_read above _ node hnode
    · exact takenFrom_readTarget above rest hrest
termination_by structural nodes => nodes

theorem takenFrom_readExported (above : List Node) (passedOn : Bool) :
    (nodes : List Node) → (∀ node ∈ nodes, Apart above node) →
      TakenFrom (readExported source above passedOn nodes) (nodes.map (places above)).sum
  | [], _ => .nil _
  | node :: rest, h => by
    obtain ⟨hnode, hrest⟩ := List.forall_mem_cons.mp h
    rw [readExported, List.map_cons, List.sum_cons]
    refine .append ?_ (takenFrom_readExported above passedOn rest hrest)
    split
    · exact .nil _
    · split
      · split
        · exact .nil _
        · exact .exportedNames above node
      · split
        · exact .nil _
        · exact takenFrom_read above .expression node hnode
termination_by structural nodes => nodes

theorem takenFrom_readDeclarators (above : List Node) (hoisted : Bool) :
    (nodes : List Node) → (∀ node ∈ nodes, Apart above node) →
      TakenFrom (readDeclarators source above hoisted nodes) (nodes.map (places above)).sum
  | [], _ => .nil _
  | ⟨label, children⟩ :: rest, h => by
    obtain ⟨hnode, hrest⟩ := List.forall_mem_cons.mp h
    rw [readDeclarators, List.map_cons, List.sum_cons]
    refine .append ?_ (takenFrom_readDeclarators above hoisted rest hrest)
    split
    · exact ((takenFrom_readField _ _ "name" children hnode.below).append
        (takenFrom_readField _ .expression "value" children hnode.below)).mono
          (two_fields_le above ⟨label, children⟩ (by decide))
    · exact .nil _
termination_by structural nodes => nodes

end

end Outline

/-! ## Definitions of an arena -/

/-- The definition that a declaration makes. -/
def Item.definition (declaration : Binder × String × Node) : Definition :=
  ⟨declaration.1.kind, declaration.2.2, declaration.1.node⟩

namespace Arena

/-- The definitions that an arena holds. -/
def allDefinitions (a : Arena) : List Definition :=
  a.scopes.flatMap (·.bindings.definitions)

theorem allDefinitions_openScope (a : Arena) (kind : ScopeKind) (node : Node) (p : Nat) :
    (a.openScope kind node (some p)).allDefinitions = a.allDefinitions := by
  have hviews : (a.openScope kind node (some p)).scopes.map (·.bindings.definitions) =
      a.scopes.map (·.bindings.definitions) ++ [[]] :=
    map_openScope_of_unseen a kind node p fun _ => rfl
  rw [allDefinitions, allDefinitions, List.flatMap_def, List.flatMap_def, hviews, List.flatten_append]
  exact List.append_nil _

/-- **A declaration adds one definition**, wherever it binds. -/
theorem allDefinitions_declare {a : Arena} {i : Nat} (hi : i < a.size) (name : String) (definition : Definition) :
    (a.declare i name definition).allDefinitions.Perm (definition :: a.allDefinitions) := by
  obtain ⟨s, hs⟩ := exists_get?_of_lt hi
  exact perm_flatMap_modify hs (Bindings.definitions_alter s.bindings name rfl definition)

end Arena

namespace Item

open Arena

theorem allDefinitions_enter {a : Arena} (hdesc : a.Descending) {i : Nat} (hi : i < a.size) (binder : Binder)
    (name : String) (nameNode : Node) :
    (enter a i binder name nameNode).allDefinitions.Perm
      (definition (binder, name, nameNode) :: a.allDefinitions) := by
  refine allDefinitions_declare ?_ name _
  split
  · exact Nat.lt_of_le_of_lt (varScope_le hdesc hi) hi
  · exact hi

mutual

theorem allDefinitions_play {a : Arena} (hdesc : a.Descending) {i : Nat} (hi : i < a.size) :
    (item : Item) →
      (play a i item).1.allDefinitions.Perm ((declarations item).map definition ++ a.allDefinitions)
  | .use _ _ => .refl _
  | .declare binder name nameNode => allDefinitions_enter hdesc hi binder name nameNode
  | .scope kind node items => by
    have hinner := allDefinitions_playAll (hdesc.openScope kind node hi) (i := a.size) (by simp) items
    rw [allDefinitions_openScope] at hinner
    exact hinner

/-- **Playing items enters each of their declarations once.** -/
theorem allDefinitions_playAll {a : Arena} (hdesc : a.Descending) {i : Nat} (hi : i < a.size) :
    (items : List Item) →
      (playAll a i items).1.allDefinitions.Perm ((declarationsAll items).map definition ++ a.allDefinitions)
  | [] => .refl _
  | item :: rest => by
    obtain ⟨opened, hgrown⟩ := play_grown hdesc hi item
    have hfirst := allDefinitions_play hdesc hi item
    have hrest := allDefinitions_playAll hgrown.descending (Nat.lt_of_lt_of_le hi hgrown.size_le) rest
    rw [declarationsAll, List.map_append, List.append_assoc]
    refine hrest.trans ((hfirst.append_left _).trans ?_)
    rw [← List.append_assoc, ← List.append_assoc]
    exact List.perm_append_comm.append_right _

end

end Item

/-! ## Whole files -/

namespace ScopeTree

/-- Ambient globals have no definitions. -/
theorem allDefinitions_initialArena (root : Node) (globals : List String) :
    (initialArena root globals).allDefinitions = [] := by
  refine List.flatMap_eq_nil_iff.mpr fun s hmem => ?_
  obtain ⟨i, hs⟩ := List.getElem?_of_mem hmem
  refine List.flatMap_eq_nil_iff.mpr fun entry hentry => ?_
  have hlookup := (initialArena_distinct root globals).lookup?_of_mem hs hentry
  obtain ⟨-, hv⟩ := lookup?_initialArena_some hlookup
  rw [hv]

variable (source : Bytes) (root : Node) (globals : List String)

theorem allDefinitions_walk :
    (walk source root globals).1.allDefinitions.Perm
      ((Item.declarationsAll (outline source root)).map Item.definition) := by
  have hrooted := initialArena_rooted root globals
  have hperm := Item.allDefinitions_playAll hrooted.descending hrooted.inside_one.2 (outline source root)
  rw [allDefinitions_initialArena, List.append_nil] at hperm
  exact hperm

/-- **Nothing is recorded twice.** In a tree in which no class has a heritage clause for its body, the nodes that
are recorded as uses and those that are recorded as the names of definitions stand at different places, and no
place is recorded twice. What is recorded as a use is a node that can be a name, so the uses are among such nodes
of the tree. -/
theorem recorded_once (hroot : ∀ site ∈ root.sites, site.node.BodyApart) :
    (∃ names : List Site,
      (names.map (·.node)).Perm ((walk source root globals).1.allDefinitions.map (·.nameNode)) ∧
        ((walk source root globals).2.map (·.site) ++ names).Subperm root.sites) ∧
    ((walk source root globals).2.map (·.site)).Subperm
      (root.sites.filter fun site => site.node.kind ∈ Outline.usedKinds) := by
  have htaken : Outline.TakenFrom (outline source root) (root.children.map (Outline.places [root])).sum :=
    Outline.takenFrom_readAll [root] .expression root.children (Outline.Apart.below hroot)
  have huses : (walk source root globals).2.map (·.site) =
      (Item.sitesAll (outline source root)).map Prod.snd := by
    rw [← sites_walk source root globals, List.map_map]
    rfl
  have hle : (root.children.map (Outline.places [root])).sum ≤ (root.sites : Multiset Site) :=
    Outline.innerPlaces_le [] root
  obtain ⟨names, hnames, honce⟩ := htaken.once
  replace honce := honce.trans hle
  rw [huses]
  constructor
  · refine ⟨names.toList, ?_, ?_⟩
    · have hperm := (allDefinitions_walk source root globals).map (·.nameNode)
      rw [List.map_map] at hperm
      refine .trans ?_ hperm.symm
      rw [← Multiset.coe_eq_coe, ← Multiset.map_coe, Multiset.coe_toList]
      exact hnames
    · rw [← Multiset.coe_le, ← Multiset.coe_add, Multiset.coe_toList]
      exact honce
  · have hkept : ((Item.sitesAll (outline source root)).map Prod.snd).filter
        (fun site => site.node.kind ∈ Outline.usedKinds) =
          (Item.sitesAll (outline source root)).map Prod.snd := by
      refine List.filter_eq_self.mpr fun site hsite => ?_
      obtain ⟨use, huse, rfl⟩ := List.mem_map.mp hsite
      exact decide_eq_true (htaken.kind_mem use huse)
    rw [← hkept]
    refine List.Subperm.filter _ ?_
    rw [← Multiset.coe_le]
    exact (Multiset.le_add_right _ _).trans honce

/-- A class with a heritage clause, and a method whose name is computed from a name that its parameters bind. -/
def heritageSource : Bytes :=
  Utf8.encode "class A extends B{[c]({c=A}){c()}}".toList

/-- The tree of this file. -/
def heritageRoot : Node :=
  Script.parse heritageSource

/-- Four uses and two definitions are recorded, all of them at different places. -/
theorem recorded_once_heritage :
    (∀ site ∈ heritageRoot.sites, site.node.BodyApart) ∧
    ((walk heritageSource heritageRoot []).2.map (·.name)) = ["B", "c", "A", "c"] ∧
    ∃ names : List Site,
      (names.map (·.node)).Perm ((walk heritageSource heritageRoot []).1.allDefinitions.map (·.nameNode)) ∧
        names.length = 2 ∧
        ((walk heritageSource heritageRoot []).2.map (·.site) ++ names).Subperm heritageRoot.sites := by
  have hread : (∀ site ∈ heritageRoot.sites, site.node.BodyApart) ∧
      ((walk heritageSource heritageRoot []).2.map (·.name)) = ["B", "c", "A", "c"] ∧
      (walk heritageSource heritageRoot []).1.allDefinitions.length = 2 := by
    decide +kernel
  obtain ⟨hapart, huses, hlength⟩ := hread
  obtain ⟨⟨names, hnames, honce⟩, -⟩ := recorded_once heritageSource heritageRoot [] hapart
  refine ⟨hapart, huses, names, hnames, ?_, honce⟩
  have heq := hnames.length_eq
  rw [List.length_map, List.length_map] at heq
  exact heq.trans hlength

end ScopeTree

end LoggerLint
