import LoggerLint.Proofs.Scope.Partition
import LoggerLint.Proofs.Scope.Places

/-!
# Names that are called upon

A use matters to the rule where it is the object of what is called. `ScopeTree.callees_analyze_perm_iff` says
which of these names the analysis of a program records: all of them, each once, but for those at places that
are not read. So it misses a call exactly where there is one in a decorator of a class or of a method, in
the initial value of the name of a loop over keys, or in an import; `ScopeTree.decorator_call_not_entered`
is such a program.

The proof follows the functions that read a tree, one theorem for each: what they use is what is to be met
at the nodes they read.
-/

namespace LoggerLint

namespace Outline

/-! ## Uses among items -/

/-- The names called upon that items use, by their sites. -/
def callees (items : List Item) : Multiset Site :=
  ((Item.sitesAll items).map Prod.snd).filter Site.isCallee

@[simp]
theorem callees_nil : callees [] = 0 := rfl

@[simp]
theorem callees_append (items more : List Item) :
    callees (items ++ more) = callees items + callees more := by
  simp [callees, Item.sitesAll_append]

@[simp]
theorem callees_scope (kind : ScopeKind) (node : Node) (items : List Item) :
    callees [.scope kind node items] = callees items := by
  simp [callees, Item.sitesAll, Item.sites]

@[simp]
theorem callees_ite (condition : Prop) [Decidable condition] (items more : List Item) :
    callees (if condition then items else more) =
      if condition then callees items else callees more :=
  apply_ite callees condition items more

theorem callees_useOf (source : Bytes) (above : List Node) (node : Node) :
    callees [useOf source above node] =
      if Site.isCallee ⟨node, above⟩ then {⟨node, above⟩} else 0 := by
  by_cases h : Site.isCallee ⟨node, above⟩ = true
  · simp [callees, useOf, Item.sitesAll, Item.sites, h]
  · simp [callees, useOf, Item.sitesAll, Item.sites, h]

/-! ## Items without names that are called upon -/

@[simp]
theorem callees_declared (source : Bytes) (binder : Binder) (nameNode : Node) :
    callees (declared source binder nameNode) = 0 := by
  rw [declared]
  split
  · rfl
  · rfl

@[simp]
theorem callees_declaredName (source : Bytes) (binder : Binder) (node : Node) :
    callees (declaredName source binder node) = 0 := by
  rw [declaredName]
  rcases node.child? "name" with _ | name
  · rfl
  · exact callees_declared source binder name

@[simp]
theorem callees_declaredIdentifier (source : Bytes) (binder : Binder) (node : Node) :
    callees (declaredIdentifier source binder node) = 0 := by
  rw [declaredIdentifier]
  rcases node.child? "name" with _ | name
  · rfl
  · by_cases hkind : name.kind = "identifier"
    · simp [hkind]
    · simp [hkind]

@[simp]
theorem callees_imported (source : Bytes) (node : Node) : callees (imported source node) = 0 := by
  have hflat : ∀ names : List Node,
      callees (names.flatMap (declared source ⟨.importBinding, node, false⟩)) = 0 := by
    intro names
    induction names with
    | nil => rfl
    | cons name rest ih => simp [ih]
  exact hflat _

/-- The names of an export clause are called upon nowhere: they stand in specifiers. -/
@[simp]
theorem callees_exportedNames (source : Bytes) (above : List Node) (clause : Node) :
    callees (exportedNames source above clause) = 0 := by
  rw [exportedNames]
  have hspecifiers : ∀ specifier ∈ clause.namedChildren.filter (·.kind == "export_specifier"),
      specifier.kind = "export_specifier" := by
    intro specifier hspecifier
    simpa using (List.mem_filter.mp hspecifier).2
  generalize clause.namedChildren.filter (·.kind == "export_specifier") = specifiers at hspecifiers
  induction specifiers with
  | nil => rfl
  | cons specifier rest ih =>
    have hrest := ih fun other hother => hspecifiers other (.tail _ hother)
    rw [List.filterMap_cons]
    split
    · exact hrest
    · rename_i item hitem
      obtain ⟨name, -, rfl⟩ := Option.map_eq_some_iff.mp hitem
      have hnot : Site.isCallee ⟨name, specifier :: clause :: above⟩ = false := by
        simp [Site.isCallee, hspecifiers specifier (.head _)]
      rw [← List.singleton_append, callees_append, callees_useOf, hnot, hrest]
      rfl

/-- The name of a pattern is no name that is called upon. -/
theorem Ready.callees_named {source : Bytes} {above : List Node} {role : Role} {node : Node}
    (h : Ready above role node) (hform : role.patternForm node.kind = .name) :
    callees (named source above role node) = toMeet above node := by
  obtain ⟨hzero, hnot⟩ := h.apart_pattern hform rfl
  rw [hzero]
  cases role with
  | binding binder => exact callees_declared source binder node
  | expression => rw [named, callees_useOf, hnot]; rfl
  | target => rw [named, callees_useOf, hnot]; rfl

/-! ## Reading meets what is to be met

One theorem for each of the functions that read a tree: what they use of the names that are called upon is
what is to be met at the nodes they read. -/

variable {source : Bytes}

mutual

/-- **A node that is read is met with everything below it.** -/
theorem callees_read (above : List Node) (role : Role) : (node : Node) → Ready above role node →
    callees (read source above role node) = toMeet above node
  | ⟨label, children⟩, h => by
    rw [read]
    -- each reader gives what is to be met in its field; the construct has nothing to meet elsewhere
    cases hpattern : role.patternForm label.kind with
    | name => exact h.callees_named hpattern
    | group =>
      obtain ⟨hready, hsum⟩ := h.group hpattern
      rw [hsum]
      exact callees_readAll _ role children hready
    | pair =>
      obtain ⟨hfields, hplain⟩ := h.pairPattern hpattern
      rw [callees_append, callees_readComputed _ "key" children (hfields.ready "key" (by simp) _) hplain,
        callees_readField _ role "value" children (hfields.ready "value" (by simp) _)]
      simp [hfields.toMeet_eq, Node.children]
    | withDefault =>
      have hfields := h.defaultPattern hpattern
      rw [callees_append, callees_readField _ role "left" children (hfields.ready "left" (by simp) _),
        callees_readField _ .expression "right" children (hfields.ready "right" (by simp) _)]
      simp [hfields.toMeet_eq, Node.children]
    | comment => exact (h.apart_pattern hpattern rfl).1.symm
    | expression =>
      cases hform : Form.ofKind label.kind with
      | name =>
        obtain ⟨haccess, hcall, hslots⟩ := of_nameForm hform
        rw [h.toMeet_eq_self haccess hcall hslots]
        exact callees_useOf source above ⟨label, children⟩
      | importing =>
        have hzero : toMeet above ⟨label, children⟩ = 0 := Ready.toMeet_importing hform
        rw [hzero]
        exact callees_imported source ⟨label, children⟩
      | exporting =>
        have hname : Node.kind ⟨label, children⟩ ≠ "identifier" := ne_identifier_of_form hform nofun
        rw [toMeet_eq_sum hname]
        exact callees_readExported _ _ children fun child hchild =>
          ⟨(h.whole hform rfl nofun).1 child hchild, h.toMeet_unnamed hchild⟩
      | declarators hoisted =>
        have hname : Node.kind ⟨label, children⟩ ≠ "identifier" := ne_identifier_of_form hform nofun
        rw [toMeet_eq_sum hname]
        exact callees_readDeclarators _ hoisted children fun child hchild =>
          ⟨(h.whole hform rfl nofun).1 child hchild, h.toMeet_of_not_declarator hform hchild⟩
      | function isDeclared =>
        -- its own name is only declared, and its decorators are forgotten
        obtain ⟨hfields, hplain⟩ := h.function hform
        simp only [callees_append, callees_scope, callees_ite, callees_declaredName,
          callees_declaredIdentifier, callees_nil, ite_self, zero_add]
        rw [callees_readComputed _ "name" children (hfields.ready "name" (by simp) _) hplain,
          callees_readWithin _ _ "parameters" children (hfields.ready "parameters" (by simp) _)
            (h.kind_mem_holders (Node.holder?_parameters _) (by decide)),
          callees_readField _ _ "parameter" children (hfields.ready "parameter" (by simp) _),
          callees_readBody _ children (hfields.ready "body" (by simp) _)]
        simp [hfields.toMeet_eq, Node.children, add_assoc]
      | classBody isDeclared =>
        simp only [callees_append, callees_scope, callees_ite, callees_declaredName,
          callees_declaredIdentifier, callees_nil, ite_self, zero_add]
        rw [callees_readHeritage _ children (h.heritage hform),
          callees_readWithin _ _ "body" children (h.classBody hform)
            (h.kind_mem_holders (holder?_of_class hform) (by decide))]
        exact (h.toMeet_class hform).symm
      | block | forLoop =>
        obtain ⟨hready, hsum⟩ := h.whole hform rfl nofun
        rw [hsum, callees_scope]
        exact callees_readAll _ .expression children hready
      | forIn =>
        have hfields := h.forIn hform
        rw [callees_scope, callees_append, callees_append,
          callees_readField _ _ "left" children (hfields.ready "left" (by simp) _),
          callees_readField _ _ "right" children (hfields.ready "right" (by simp) _),
          callees_readField _ _ "body" children (hfields.ready "body" (by simp) _)]
        simp [hfields.toMeet_eq, Node.children, add_assoc]
      | catchClause =>
        have hfields : ReadsFields above ⟨label, children⟩ ["parameter", "body"] :=
          h.formFields hform rfl rfl rfl (by decide)
        rw [callees_scope, callees_append,
          callees_readField _ _ "parameter" children (hfields.ready "parameter" (by simp) _),
          callees_readField _ _ "body" children (hfields.ready "body" (by simp) _)]
        simp [hfields.toMeet_eq, Node.children]
      | switchStatement =>
        have hfields : ReadsFields above ⟨label, children⟩ ["value", "body"] :=
          h.formFields hform rfl rfl rfl (by decide)
        rw [callees_append, callees_readField _ _ "value" children (hfields.ready "value" (by simp) _),
          callees_readSwitchBody _ children (hfields.ready "body" (by simp) _)
            (h.kind_mem_holders (holder?_of_switch hform) (by decide))]
        simp [hfields.toMeet_eq, Node.children]
      | assignment =>
        have hfields : ReadsFields above ⟨label, children⟩ ["left", "right"] :=
          h.formFields hform rfl rfl rfl (by decide)
        rw [callees_append, callees_readTarget _ children (hfields.ready "left" (by simp)),
          callees_readField _ _ "right" children (hfields.ready "right" (by simp) _)]
        simp [hfields.toMeet_eq, Node.children]
      | other =>
        obtain ⟨hready, hsum⟩ := h.whole hform rfl nofun
        rw [hsum]
        exact callees_readAll _ .expression children hready
termination_by structural node => node

theorem callees_readAll (above : List Node) (role : Role) : (nodes : List Node) →
    (∀ node ∈ nodes, Ready above role node) →
    callees (readAll source above role nodes) =
      (nodes.map fun node => if node.named then toMeet above node else 0).sum
  | [], _ => rfl
  | node :: rest, h => by
    have hfirst := callees_read above role node (h node (.head _))
    have hrest := callees_readAll above role rest fun other hother => h other (.tail _ hother)
    rw [readAll, callees_append, hrest, List.map_cons, List.sum_cons, ← hfirst]
    split
    · rfl
    · rfl
termination_by structural nodes => nodes

/-- The children of a node may be read in its place. -/
theorem callees_readChildren (above : List Node) (role : Role) : (node : Node) → node.kind ∈ holders →
    Ready above .expression node →
    callees (readAll source (node :: above) role node.children) = toMeet above node
  | ⟨label, children⟩, hkind, h => by
    have hall := callees_readAll _ role children (h.within hkind role)
    exact hall.trans (h.toMeet_eq_sum_named (of_mem_holders hkind).1.1).symm
termination_by structural node => node

theorem callees_readField (above : List Node) (role : Role) (field : String) : (nodes : List Node) →
    FieldReady above role field nodes →
    callees (readField source above role field nodes) = atField (toMeet above) field nodes
  | [], _ => rfl
  | node :: rest, h => by
    rw [readField, h.single.atField_cons]
    split
    · rename_i hin
      exact callees_read above role node (h.ready node (.head _) hin)
    · exact callees_readField above role field rest h.tail
termination_by structural nodes => nodes

theorem callees_readWithin (above : List Node) (role : Role) (field : String) : (nodes : List Node) →
    FieldReady above .expression field nodes →
    (∀ node ∈ nodes, node.inField field = true → node.kind ∈ holders) →
    callees (readWithin source above role field nodes) = atField (toMeet above) field nodes
  | [], _, _ => rfl
  | ⟨label, children⟩ :: rest, h, hkinds => by
    rw [readWithin, h.single.atField_cons]
    change callees (if Node.inField ⟨label, children⟩ field then _ else _) = _
    split
    · rename_i hin
      exact callees_readChildren above role ⟨label, children⟩ (hkinds _ (.head _) hin)
        (h.ready _ (.head _) hin)
    · exact callees_readWithin above role field rest h.tail fun other hother =>
        hkinds other (.tail _ hother)
termination_by structural nodes => nodes

theorem callees_readComputed (above : List Node) (field : String) : (nodes : List Node) →
    FieldReady above .expression field nodes →
    (∀ node ∈ nodes, node.inField field = true → node.kind ≠ "computed_property_name" →
      toMeet above node = 0) →
    callees (readComputed source above field nodes) = atField (toMeet above) field nodes
  | [], _, _ => rfl
  | node :: rest, h, hplain => by
    rw [readComputed, h.single.atField_cons]
    split
    · rename_i hin
      by_cases hkind : node.kind = "computed_property_name"
      · rw [if_pos (by simp [hkind])]
        exact callees_read above .expression node (h.ready node (.head _) hin)
      · rw [if_neg (by simp [hkind]), hplain node (.head _) hin hkind]
        rfl
    · exact callees_readComputed above field rest h.tail fun other hother => hplain other (.tail _ hother)
termination_by structural nodes => nodes

theorem callees_readBody (above : List Node) : (nodes : List Node) →
    FieldReady above .expression "body" nodes →
    callees (readBody source above nodes) = atField (toMeet above) "body" nodes
  | [], _ => rfl
  | ⟨label, children⟩ :: rest, h => by
    rw [readBody, h.single.atField_cons]
    change callees (if Node.inField ⟨label, children⟩ "body" then _ else _) = _
    split
    · rename_i hin
      split
      · rename_i hkind
        have hblock : Node.kind ⟨label, children⟩ = "statement_block" := eq_of_beq hkind
        have hholder : Node.kind ⟨label, children⟩ ∈ holders := by
          rw [hblock]
          decide
        exact callees_readChildren above .expression ⟨label, children⟩ hholder (h.ready _ (.head _) hin)
      · exact callees_read above .expression ⟨label, children⟩ (h.ready _ (.head _) hin)
    · exact callees_readBody above rest h.tail
termination_by structural nodes => nodes

theorem callees_readHeritage (above : List Node) : (nodes : List Node) →
    (∀ node ∈ nodes, node.kind = "class_heritage" → Ready above .expression node) →
    callees (readHeritage source above nodes) = (nodes.map fun node =>
      if node.named && node.kind == "class_heritage" then toMeet above node else 0).sum
  | [], _ => rfl
  | ⟨label, children⟩ :: rest, h => by
    have hrest := callees_readHeritage above rest fun other hother => h other (.tail _ hother)
    rw [readHeritage, callees_append, hrest, List.map_cons, List.sum_cons]
    congr 1
    change callees (if Node.named ⟨label, children⟩ && Node.kind ⟨label, children⟩ == "class_heritage"
      then _ else _) = _
    split
    · rename_i hclause
      rw [Bool.and_eq_true, beq_iff_eq] at hclause
      have hholder : Node.kind ⟨label, children⟩ ∈ holders := by
        rw [hclause.2]
        decide
      exact callees_readChildren above .expression ⟨label, children⟩ hholder (h _ (.head _) hclause.2)
    · rfl
termination_by structural nodes => nodes

theorem callees_readSwitchBody (above : List Node) : (nodes : List Node) →
    FieldReady above .expression "body" nodes →
    (∀ node ∈ nodes, node.inField "body" = true → node.kind ∈ holders) →
    callees (readSwitchBody source above nodes) = atField (toMeet above) "body" nodes
  | [], _, _ => rfl
  | ⟨label, children⟩ :: rest, h, hkinds => by
    rw [readSwitchBody, h.single.atField_cons]
    change callees (if Node.inField ⟨label, children⟩ "body" then _ else _) = _
    split
    · rename_i hin
      rw [callees_scope]
      exact callees_readChildren above .expression ⟨label, children⟩ (hkinds _ (.head _) hin)
        (h.ready _ (.head _) hin)
    · exact callees_readSwitchBody above rest h.tail fun other hother => hkinds other (.tail _ hother)
termination_by structural nodes => nodes

theorem callees_readTarget (above : List Node) : (nodes : List Node) →
    (∀ role, FieldReady above role "left" nodes) →
    callees (readTarget source above nodes) = atField (toMeet above) "left" nodes
  | [], _ => rfl
  | node :: rest, h => by
    rw [readTarget, (h .expression).single.atField_cons]
    split
    · rename_i hin
      exact callees_read above _ node ((h _).ready node (.head _) hin)
    · exact callees_readTarget above rest fun role => (h role).tail
termination_by structural nodes => nodes

theorem callees_readExported (above : List Node) (passedOn : Bool) : (nodes : List Node) →
    (∀ node ∈ nodes, Ready above .expression node ∧ (node.named = false → toMeet above node = 0)) →
    callees (readExported source above passedOn nodes) = (nodes.map (toMeet above)).sum
  | [], _ => rfl
  | node :: rest, h => by
    obtain ⟨hready, hmark⟩ := h node (.head _)
    have hrest := callees_readExported above passedOn rest fun other hother => h other (.tail _ hother)
    rw [readExported, callees_append, hrest, List.map_cons, List.sum_cons]
    congr 1
    split
    · rename_i hnamed
      rw [hmark (by simpa using hnamed)]
      rfl
    · split
      · rename_i hclause
        rw [hready.toMeet_names (.inl (eq_of_beq hclause))]
        split
        · rfl
        · exact callees_exportedNames source above node
      · split
        · rename_i hname
          rw [Bool.or_eq_true, beq_iff_eq, beq_iff_eq] at hname
          rw [hready.toMeet_names (.inr hname)]
          rfl
        · exact callees_read above .expression node hready
termination_by structural nodes => nodes

theorem callees_readDeclarators (above : List Node) (hoisted : Bool) : (nodes : List Node) →
    (∀ node ∈ nodes, Ready above .expression node ∧
      (¬ (node.named = true ∧ node.kind = "variable_declarator") → toMeet above node = 0)) →
    callees (readDeclarators source above hoisted nodes) = (nodes.map (toMeet above)).sum
  | [], _ => rfl
  | ⟨label, children⟩ :: rest, h => by
    obtain ⟨hready, hother⟩ := h _ (.head _)
    have hrest := callees_readDeclarators above hoisted rest fun other hother => h other (.tail _ hother)
    rw [readDeclarators, callees_append, hrest, List.map_cons, List.sum_cons]
    congr 1
    change callees (if Node.named ⟨label, children⟩ &&
      Node.kind ⟨label, children⟩ == "variable_declarator" then _ else _) = _
    split
    · rename_i hdeclarator
      rw [Bool.and_eq_true, beq_iff_eq] at hdeclarator
      have hfields := hready.declarator hdeclarator.2
      rw [callees_append, callees_readField _ _ "name" children (hfields.ready "name" (by simp) _),
        callees_readField _ _ "value" children (hfields.ready "value" (by simp) _)]
      simp [hfields.toMeet_eq, Node.children]
    · rename_i hdeclarator
      rw [hother (by simpa using hdeclarator)]
      rfl
termination_by structural nodes => nodes

end

/-- **Reading a program meets every name that is called upon**, but for those at places that are not
read. -/
theorem callees_outline {root : Node} (hroot : root.IsProgram) :
    callees (outline source root) = toMeet [] root := by
  have hready : Ready [] .expression root := ⟨hroot.regular, rfl, .inl rfl⟩
  have hform : Form.ofKind root.kind = .other := by
    rw [hroot.kind]
    rfl
  obtain ⟨hchildren, hsum⟩ := hready.whole hform rfl nofun
  rw [hsum]
  exact callees_readAll [root] .expression root.children hchildren

end Outline

/-! ## The uses of a file -/

/-- The site of a name, under the text that stands there. -/
def Site.spelled (source : Bytes) (site : Site) : String × Site :=
  (site.node.text source, site)

/-- The names called upon that an arena holds, with their sites. -/
def Arena.callees (a : Arena) : List (String × Site) :=
  (a.entered.map fun use => (use.name, use.site)).filter (·.2.isCallee)

namespace ScopeTree

variable (source : Bytes) (root : Node) (globals : List String)

theorem entered_sites_analyze :
    ((analyze source root globals).arena.entered.map fun use => (use.name, use.site)).Perm
      (Item.sitesAll (outline source root)) := by
  have hperm := (entered_analyze source root globals).map fun use => (use.name, use.site)
  rw [List.map_map] at hperm
  rw [← sites_walk source root globals]
  exact hperm

/-- The names called upon that the outline of a file uses stand under their texts. -/
theorem filter_sitesAll_outline :
    (Item.sitesAll (outline source root)).filter (·.2.isCallee) =
      (((Item.sitesAll (outline source root)).map Prod.snd).filter Site.isCallee).map
        (·.spelled source) := by
  rw [List.filter_map, List.map_map]
  refine (List.map_id _).symm.trans (List.map_congr_left fun use huse => ?_)
  obtain ⟨name, site⟩ := use
  have hname := (site_of_mem_outline (List.mem_filter.mp huse).1).2
  rw [hname]
  rfl

/-- The names called upon that are recorded are those at places that are read. -/
theorem callees_analyze (hroot : root.IsProgram) :
    (analyze source root globals).arena.callees.Perm
      ((root.sites.filter fun site => site.isCallee && !site.forgotten).map (·.spelled source)) := by
  refine ((entered_sites_analyze source root globals).filter _).trans ?_
  rw [filter_sitesAll_outline]
  exact (Multiset.coe_eq_coe.mp (Outline.callees_outline hroot)).map _

/-- **The analysis of a program records every name that is called upon once, but for those at places that
are not read.** So it misses none exactly if none stands in a decorator of a class or of a method, in the
initial value of the name of a loop over keys, or in an import. -/
theorem callees_analyze_perm_iff (hroot : root.IsProgram) :
    (analyze source root globals).arena.callees.Perm
        ((root.sites.filter fun site => site.isCallee && !site.forgotten).map (·.spelled source)) ∧
      ((analyze source root globals).arena.callees.Perm
          ((root.sites.filter Site.isCallee).map (·.spelled source)) ↔
        ∀ site ∈ root.sites, site.isCallee = true → site.forgotten = false) := by
  have hmet := callees_analyze source root globals hroot
  have hkept : (root.sites.filter fun site => site.isCallee && !site.forgotten) =
      (root.sites.filter Site.isCallee).filter fun site => !site.forgotten := by
    rw [List.filter_filter]
    simp only [Bool.and_comm]
  refine ⟨hmet, fun hall site hsite hcallee => ?_, fun hread => ?_⟩
  · -- a name left out would make the lists differ in length
    have hlength := (hmet.symm.trans hall).length_eq
    rw [hkept, List.length_map, List.length_map, List.length_filter_eq_length_iff] at hlength
    simpa using hlength site (List.mem_filter.mpr ⟨hsite, hcallee⟩)
  · have hself : (root.sites.filter Site.isCallee).filter (fun site => !site.forgotten) =
        root.sites.filter Site.isCallee := by
      refine List.filter_eq_self.mpr fun site hsite => ?_
      obtain ⟨hsite, hcallee⟩ := List.mem_filter.mp hsite
      rw [hread site hsite hcallee]
      rfl
    rw [hkept, hself] at hmet
    exact hmet

/-! ## A class with a decorator -/

/-- A call `console.info(…)` at an offset, with a text of one letter. -/
def infoCall (start : Nat) : Node :=
  ⟨{ kind := "call_expression", start, stop := start + 17 },
    [⟨{ kind := "member_expression", start, stop := start + 12, field := some "function" },
        [⟨{ kind := "identifier", start, stop := start + 7, field := some "object" }, []⟩,
          ⟨{ kind := "property_identifier", start := start + 8, stop := start + 12,
             field := some "property" }, []⟩]⟩,
      ⟨{ kind := "arguments", start := start + 12, stop := start + 17, field := some "arguments" },
        [⟨{ kind := "string", start := start + 13, stop := start + 16 }, []⟩]⟩]⟩

/-- A class with a call in its decorator and one in its heritage clause. -/
def decoratedSource : Bytes :=
  Utf8.encode "@console.info('x') class A extends console.info('y') {}".toList

/-- Its decorator. -/
def decorator : Node :=
  ⟨{ kind := "decorator", start := 0, stop := 18, field := some "decorator" }, [infoCall 1]⟩

/-- Its declaration. -/
def decoratedClass : Node :=
  ⟨{ kind := "class_declaration", start := 0, stop := 55 },
    [decorator, ⟨{ kind := "identifier", start := 25, stop := 26, field := some "name" }, []⟩,
      ⟨{ kind := "class_heritage", start := 27, stop := 52 }, [infoCall 35]⟩,
      ⟨{ kind := "class_body", start := 53, stop := 55, field := some "body" }, []⟩]⟩

/-- Its tree. -/
def decoratedRoot : Node :=
  ⟨{ kind := "program", start := 0, stop := 55 }, [decoratedClass]⟩

theorem decoratedRoot_isProgram : decoratedRoot.IsProgram where
  kind := rfl
  regular := by decide

theorem callees_decorated_perm_iff :
    decoratedRoot.IsProgram ∧
      (analyze decoratedSource decoratedRoot ["console"]).arena.callees.Perm
        ((decoratedRoot.sites.filter fun site => site.isCallee && !site.forgotten).map
          (·.spelled decoratedSource)) ∧
      ((analyze decoratedSource decoratedRoot ["console"]).arena.callees.Perm
          ((decoratedRoot.sites.filter Site.isCallee).map (·.spelled decoratedSource)) ↔
        ∀ site ∈ decoratedRoot.sites, site.isCallee = true → site.forgotten = false) :=
  ⟨decoratedRoot_isProgram,
    callees_analyze_perm_iff decoratedSource decoratedRoot ["console"] decoratedRoot_isProgram⟩

/-- The name that is called upon in the decorator is no use of the file. -/
theorem decorator_call_not_entered :
    decoratedRoot.IsProgram ∧ decoratedRoot.errors = [] ∧
      ∃ site ∈ decoratedRoot.sites, site.isCallee = true ∧ site.node.text decoratedSource = "console" ∧
        ∀ use ∈ (analyze decoratedSource decoratedRoot ["console"]).arena.entered, use.site ≠ site := by
  have hstarts : ∀ use ∈ (analyze decoratedSource decoratedRoot ["console"]).arena.entered,
      use.site.node.start ≠ 1 := by
    decide +kernel
  have hcallee : ∃ site ∈ decoratedRoot.sites, site.isCallee = true ∧
      site.node.text decoratedSource = "console" ∧ site.node.start = 1 := by
    decide +kernel
  obtain ⟨site, hsite, hcallee, htext, hstart⟩ := hcallee
  refine ⟨decoratedRoot_isProgram, rfl, site, hsite, hcallee, htext, fun use huse heq => ?_⟩
  exact hstarts use huse (heq ▸ hstart)

end ScopeTree

end LoggerLint
