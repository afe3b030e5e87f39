import LoggerLint.Proofs.Scope.Formed
import LoggerLint.Proofs.Syntax.Path

/-!
# Induction over outlines

An outline is put together from few pieces: uses of names that stand in the tree, declarations, and
scopes around other pieces. A property of item lists that holds of the pieces and passes to what is put
together from them is `Closed`, and every outline has it (`outline_of_closed`). This is the one place
where the constructs of JavaScript are gone through; the properties of outlines follow from it without
another look at them.
-/

namespace LoggerLint

namespace Outline

/-- A property that holds of the pieces of an outline, and of everything that is put together from
items that have it. -/
structure Closed (source : Bytes) (root : Node) (P : List Item → Prop) : Prop where
  /-- nothing -/
  nil : P []
  /-- one list after the other -/
  append : ∀ items more, P items → P more → P (items ++ more)
  /-- a use of a name that stands in the tree -/
  use : ∀ node above, Node.Path root (node :: above) → P [useOf source above node]
  /-- a declaration of the name that a node spells -/
  declare : ∀ binder nameNode, nameNode.text source ≠ "" →
    P [.declare binder (nameNode.text source) nameNode]
  /-- a scope of the file around items -/
  scope : ∀ kind node items, kind ≠ .global → kind ≠ .module → P items → P [.scope kind node items]

variable {source : Bytes} {root : Node} {P : List Item → Prop}

theorem of_ite {condition : Prop} [Decidable condition] {items more : List Item}
    (hitems : condition → P items) (hmore : ¬ condition → P more) :
    P (if condition then items else more) := by
  by_cases h : condition
  · simpa [h] using hitems h
  · simpa [h] using hmore h

namespace Closed

variable (hP : Closed source root P)

include hP

theorem flatMap {α : Type} {items : α → List Item} (xs : List α) (h : ∀ x ∈ xs, P (items x)) :
    P (xs.flatMap items) := by
  induction xs with
  | nil => exact hP.nil
  | cons x rest ih =>
    rw [List.flatMap_cons]
    exact hP.append _ _ (h x (List.mem_cons_self ..))
      (ih fun y hy => h y (List.mem_cons_of_mem _ hy))

/-! ## Single names -/

theorem declared (binder : Binder) (nameNode : Node) : P (declared source binder nameNode) :=
  of_ite (fun _ => hP.nil) fun hname => hP.declare binder nameNode hname

theorem named {above : List Node} (role : Role) {node : Node}
    (hpath : Node.Path root (node :: above)) : P (named source above role node) := by
  cases role with
  | expression => exact hP.use node above hpath
  | binding binder => exact hP.declared binder node
  | target => exact hP.use node above hpath

theorem declaredName (binder : Binder) (node : Node) : P (declaredName source binder node) := by
  rw [Outline.declaredName]
  cases node.child? "name" with
  | none => exact hP.nil
  | some name => exact hP.declared binder name

theorem declaredIdentifier (binder : Binder) (node : Node) :
    P (declaredIdentifier source binder node) := by
  rw [Outline.declaredIdentifier]
  cases node.child? "name" with
  | none => exact hP.nil
  | some name => exact of_ite (fun _ => hP.declared binder name) fun _ => hP.nil

theorem imported (node : Node) : P (imported source node) :=
  hP.flatMap _ fun name _ => hP.declared _ name

theorem exportedNames {clause : Node} {above : List Node}
    (hpath : Node.Path root (clause :: above)) : P (exportedNames source above clause) := by
  rw [Outline.exportedNames]
  generalize hspecs : clause.namedChildren.filter (·.kind == "export_specifier") = specifiers
  have hmem : ∀ specifier ∈ specifiers, specifier ∈ clause.children := by
    intro specifier h
    rw [← hspecs] at h
    exact Node.mem_children_of_namedChildren (List.mem_filter.mp h).1
  clear hspecs
  induction specifiers with
  | nil => exact hP.nil
  | cons specifier rest ih =>
    have hrest := ih fun s hs => hmem s (List.mem_cons_of_mem _ hs)
    rw [List.filterMap_cons]
    split
    · exact hrest
    · rename_i item hitem
      obtain ⟨name, hname, rfl⟩ := Option.map_eq_some_iff.mp hitem
      have hchild := Node.mem_children_of_child? (Option.filter_eq_some_iff.mp hname).1
      have hspec := Node.Path.child hpath (hmem specifier (List.mem_cons_self ..))
      exact hP.append _ _ (hP.use name _ (.child hspec hchild)) hrest

end Closed

/-! ## Whole trees

One theorem for each of the functions that read a tree. The nodes that are read stand on a path, and
the lists of nodes are children of the node that heads the path above them. -/

mutual


theorem read_of_closed (hP : Closed source root P) (above : List Node) (role : Role) :
    (node : Node) → Node.Path root (node :: above) → P (read source above role node)
  | ⟨label, children⟩, hpath => by
    have hin : ∀ child ∈ children, Node.Path root (child :: ⟨label, children⟩ :: above) :=
      fun child hchild => .child hpath hchild
    rw [read]
    split
    · exact hP.named role hpath
    · exact readAll_of_closed hP _ role children hin
    · exact hP.append _ _ (readComputed_of_closed hP _ "key" children hin)
        (readField_of_closed hP _ role "value" children hin)
    · exact hP.append _ _ (readField_of_closed hP _ role "left" children hin)
        (readField_of_closed hP _ .expression "right" children hin)
    · exact hP.nil
    · split
      · exact hP.use _ above hpath
      · exact hP.imported _
      · exact readExported_of_closed hP _ _ children hin
      · exact readDeclarators_of_closed hP _ _ children hin
      · refine hP.append _ _ (hP.append _ _ (of_ite (fun _ => hP.declaredName _ _) fun _ => hP.nil)
          (readComputed_of_closed hP _ "name" children hin)) (hP.scope _ _ _ nofun nofun ?_)
        refine hP.append _ _ (hP.append _ _ (hP.append _ _
          (of_ite (fun _ => hP.nil) fun _ => hP.declaredIdentifier _ _) ?_) ?_) ?_
        · exact readWithin_of_closed hP _ _ "parameters" children hin
        · exact readField_of_closed hP _ _ "parameter" children hin
        · exact readBody_of_closed hP _ children hin
      · refine hP.append _ _ (hP.append _ _ (of_ite (fun _ => hP.declaredName _ _) fun _ => hP.nil)
          (readHeritage_of_closed hP _ children hin)) (hP.scope _ _ _ nofun nofun ?_)
        exact hP.append _ _ (of_ite (fun _ => hP.nil) fun _ => hP.declaredIdentifier _ _)
          (readWithin_of_closed hP _ _ "body" children hin)
      · exact hP.scope _ _ _ nofun nofun (readAll_of_closed hP _ _ children hin)
      · exact hP.scope _ _ _ nofun nofun (readAll_of_closed hP _ _ children hin)
      · exact hP.scope _ _ _ nofun nofun (hP.append _ _ (hP.append _ _
          (readField_of_closed hP _ _ "left" children hin)
          (readField_of_closed hP _ _ "right" children hin))
          (readField_of_closed hP _ _ "body" children hin))
      · exact hP.scope _ _ _ nofun nofun (hP.append _ _
          (readField_of_closed hP _ _ "parameter" children hin)
          (readField_of_closed hP _ _ "body" children hin))
      · exact hP.append _ _ (readField_of_closed hP _ _ "value" children hin)
          (readSwitchBody_of_closed hP _ children hin)
      · exact hP.append _ _ (readTarget_of_closed hP _ children hin)
          (readField_of_closed hP _ _ "right" children hin)
      · exact readAll_of_closed hP _ _ children hin
termination_by structural node => node

theorem readAll_of_closed (hP : Closed source root P) (above : List Node) (role : Role) :
    (nodes : List Node) → (∀ node ∈ nodes, Node.Path root (node :: above)) →
      P (readAll source above role nodes)
  | [], _ => hP.nil
  | node :: rest, hin => by
    rw [readAll]
    exact hP.append _ _
      (of_ite (fun _ => read_of_closed hP above role node (hin node (List.mem_cons_self ..)))
        fun _ => hP.nil)
      (readAll_of_closed hP above role rest fun n hn => hin n (List.mem_cons_of_mem _ hn))
termination_by structural nodes => nodes

theorem readField_of_closed (hP : Closed source root P) (above : List Node) (role : Role)
    (field : String) :
    (nodes : List Node) → (∀ node ∈ nodes, Node.Path root (node :: above)) →
      P (readField source above role field nodes)
  | [], _ => hP.nil
  | node :: rest, hin => by
    rw [readField]
    exact of_ite (fun _ => read_of_closed hP above role node (hin node (List.mem_cons_self ..)))
      fun _ => readField_of_closed hP above role field rest
        fun n hn => hin n (List.mem_cons_of_mem _ hn)
termination_by structural nodes => nodes

theorem readWithin_of_closed (hP : Closed source root P) (above : List Node) (role : Role)
    (field : String) :
    (nodes : List Node) → (∀ node ∈ nodes, Node.Path root (node :: above)) →
      P (readWithin source above role field nodes)
  | [], _ => hP.nil
  | ⟨label, children⟩ :: rest, hin => by
    have hpath := hin ⟨label, children⟩ (List.mem_cons_self ..)
    rw [readWithin]
    exact of_ite
      (fun _ => readAll_of_closed hP _ role children fun child hchild => .child hpath hchild)
      fun _ => readWithin_of_closed hP above role field rest
        fun n hn => hin n (List.mem_cons_of_mem _ hn)
termination_by structural nodes => nodes

theorem readComputed_of_closed (hP : Closed source root P) (above : List Node) (field : String) :
    (nodes : List Node) → (∀ node ∈ nodes, Node.Path root (node :: above)) →
      P (readComputed source above field nodes)
  | [], _ => hP.nil
  | node :: rest, hin => by
    rw [readComputed]
    exact of_ite
      (fun _ => of_ite
        (fun _ => read_of_closed hP above .expression node (hin node (List.mem_cons_self ..)))
        fun _ => hP.nil)
      fun _ => readComputed_of_closed hP above field rest
        fun n hn => hin n (List.mem_cons_of_mem _ hn)
termination_by structural nodes => nodes

theorem readBody_of_closed (hP : Closed source root P) (above : List Node) :
    (nodes : List Node) → (∀ node ∈ nodes, Node.Path root (node :: above)) →
      P (readBody source above nodes)
  | [], _ => hP.nil
  | ⟨label, children⟩ :: rest, hin => by
    have hpath := hin ⟨label, children⟩ (List.mem_cons_self ..)
    rw [readBody]
    exact of_ite
      (fun _ => of_ite
        (fun _ => readAll_of_closed hP _ .expression children
          fun child hchild => .child hpath hchild)
        fun _ => read_of_closed hP above .expression ⟨label, children⟩ hpath)
      fun _ => readBody_of_closed hP above rest fun n hn => hin n (List.mem_cons_of_mem _ hn)
termination_by structural nodes => nodes

theorem readHeritage_of_closed (hP : Closed source root P) (above : List Node) :
    (nodes : List Node) → (∀ node ∈ nodes, Node.Path root (node :: above)) →
      P (readHeritage source above nodes)
  | [], _ => hP.nil
  | ⟨label, children⟩ :: rest, hin => by
    have hpath := hin ⟨label, children⟩ (List.mem_cons_self ..)
    rw [readHeritage]
    exact hP.append _ _
      (of_ite
        (fun _ => readAll_of_closed hP _ .expression children
          fun child hchild => .child hpath hchild)
        fun _ => hP.nil)
      (readHeritage_of_closed hP above rest fun n hn => hin n (List.mem_cons_of_mem _ hn))
termination_by structural nodes => nodes

theorem readSwitchBody_of_closed (hP : Closed source root P) (above : List Node) :
    (nodes : List Node) → (∀ node ∈ nodes, Node.Path root (node :: above)) →
      P (readSwitchBody source above nodes)
  | [], _ => hP.nil
  | ⟨label, children⟩ :: rest, hin => by
    have hpath := hin ⟨label, children⟩ (List.mem_cons_self ..)
    rw [readSwitchBody]
    exact of_ite
      (fun _ => hP.scope _ _ _ nofun nofun
        (readAll_of_closed hP _ .expression children fun child hchild => .child hpath hchild))
      fun _ => readSwitchBody_of_closed hP above rest fun n hn => hin n (List.mem_cons_of_mem _ hn)
termination_by structural nodes => nodes

theorem readTarget_of_closed (hP : Closed source root P) (above : List Node) :
    (nodes : List Node) → (∀ node ∈ nodes, Node.Path root (node :: above)) →
      P (readTarget source above nodes)
  | [], _ => hP.nil
  | node :: rest, hin => by
    rw [readTarget]
    exact of_ite (fun _ => read_of_closed hP above _ node (hin node (List.mem_cons_self ..)))
      fun _ => readTarget_of_closed hP above rest fun n hn => hin n (List.mem_cons_of_mem _ hn)
termination_by structural nodes => nodes

theorem readExported_of_closed (hP : Closed source root P) (above : List Node) (passedOn : Bool) :
    (nodes : List Node) → (∀ node ∈ nodes, Node.Path root (node :: above)) →
      P (readExported source above passedOn nodes)
  | [], _ => hP.nil
  | node :: rest, hin => by
    have hpath := hin node (List.mem_cons_self ..)
    rw [readExported]
    refine hP.append _ _ (of_ite (fun _ => hP.nil) fun _ => ?_)
      (readExported_of_closed hP above passedOn rest fun n hn => hin n (List.mem_cons_of_mem _ hn))
    exact of_ite (fun _ => of_ite (fun _ => hP.nil) fun _ => hP.exportedNames hpath)
      fun _ => of_ite (fun _ => hP.nil) fun _ => read_of_closed hP above .expression node hpath
termination_by structural nodes => nodes

theorem readDeclarators_of_closed (hP : Closed source root P) (above : List Node) (hoisted : Bool) :
    (nodes : List Node) → (∀ node ∈ nodes, Node.Path root (node :: above)) →
      P (readDeclarators source above hoisted nodes)
  | [], _ => hP.nil
  | ⟨label, children⟩ :: rest, hin => by
    have hpath := hin ⟨label, children⟩ (List.mem_cons_self ..)
    have hinner : ∀ child ∈ children, Node.Path root (child :: ⟨label, children⟩ :: above) :=
      fun child hchild => .child hpath hchild
    rw [readDeclarators]
    exact hP.append _ _
      (of_ite
        (fun _ => hP.append _ _ (readField_of_closed hP _ _ "name" children hinner)
          (readField_of_closed hP _ _ "value" children hinner))
        fun _ => hP.nil)
      (readDeclarators_of_closed hP above hoisted rest
        fun n hn => hin n (List.mem_cons_of_mem _ hn))
termination_by structural nodes => nodes

end

end Outline

/-- **Induction over outlines**: what the pieces have and is passed on, the outline of a tree has. -/
theorem outline_of_closed {source : Bytes} {root : Node} {P : List Item → Prop}
    (hP : Outline.Closed source root P) : P (outline source root) :=
  Outline.readAll_of_closed hP [root] .expression root.children fun _ hnode => .child .root hnode

/-! ## Where names are used -/

/-- A use in an outline stands in the tree, under the text of its node. -/
theorem site_of_mem_outline {source : Bytes} {root : Node} {name : String} {site : Site}
    (h : (name, site) ∈ Item.sitesAll (outline source root)) :
    site.In root ∧ name = site.node.text source := by
  revert h
  refine outline_of_closed (P := fun items => (name, site) ∈ Item.sitesAll items →
    site.In root ∧ name = site.node.text source) ⟨?_, ?_, ?_, ?_, ?_⟩
  · intro h
    cases h
  · intro items more hitems hmore h
    rw [Item.sitesAll_append, List.mem_append] at h
    exact h.elim hitems hmore
  · intro node above hpath h
    obtain ⟨rfl, rfl⟩ : name = node.text source ∧ site = ⟨node, above⟩ := by
      simpa [Outline.useOf, Item.sitesAll, Item.sites] using h
    exact ⟨hpath, rfl⟩
  · intro binder nameNode _ h
    simp [Item.sitesAll, Item.sites] at h
  · intro kind node items _ _ hitems h
    exact hitems (by simpa [Item.sitesAll, Item.sites] using h)

/-- **Every use of a file stands in its tree**, and its name is the text that stands there. -/
theorem ScopeTree.site_of_mem_walk {source : Bytes} {root : Node} {globals : List String}
    {use : Reference} (huse : use ∈ (walk source root globals).2) :
    use.site.In root ∧ use.name = use.site.node.text source := by
  have hmem : (use.name, use.site) ∈ Item.sitesAll (outline source root) := by
    rw [← sites_walk source root globals]
    exact List.mem_map_of_mem (f := fun use : Reference => (use.name, use.site)) huse
  exact site_of_mem_outline hmem

end LoggerLint
