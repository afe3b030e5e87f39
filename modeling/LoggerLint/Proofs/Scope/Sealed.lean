import LoggerLint.Console.Rule
import LoggerLint.Proofs.Scope.Frame
import LoggerLint.Script.Program
import Mathlib.Data.List.Basic

/-!
# What functions and classes keep to themselves

A function is sealed: whatever is declared in it stays in its scopes, and the scopes around it see no more of it
than the name of a declared function (`Outline.function_sealed`).

A class is not. Its body holds no hoisted declarations, so they go through it to the scopes around: a `var` in a
static block is declared where the class stands. `Outline.leaked` lists what a class lets out. The class keeps
everything exactly when this list is empty, and it is if there is no `var` in the class outside its functions
(`Outline.class_keeps_iff`, with `Outline.LetsOut` for what gets out of a construct).
-/

namespace LoggerLint

/-- The arena after a declared function or class has given its name to the scope at `i`; a name without text is
given to none. -/
def Arena.giveName (a : Arena) (i : Nat) (source : Bytes) (kind : DefinitionKind) (node : Node) : Arena :=
  match node.child? "name" with
  | none => a
  | some name =>
    if name.text source = "" then a else a.declare i (name.text source) ⟨kind, name, node⟩

namespace Outline

variable {source : Bytes}

/-! ## Functions -/

/-- The kinds of function that give their name to the scope around them. -/
def declaredFunctions : List String :=
  ["function_declaration", "generator_function_declaration"]

/-- The kinds of function. -/
def functions : List String :=
  declaredFunctions ++
    ["function_expression", "function", "generator_function", "arrow_function", "method_definition"]

theorem form_of_mem_functions {kind : String} (h : kind ∈ functions) :
    Form.ofKind kind = .function (decide (kind ∈ declaredFunctions)) := by
  simp only [functions, declaredFunctions, List.cons_append, List.nil_append, List.mem_cons, List.not_mem_nil,
    or_false] at h
  rcases h with rfl | rfl | rfl | rfl | rfl | rfl | rfl <;> rfl

theorem readComputed_eq_nil {above : List Node} {field : String} {nodes : List Node}
    (h : ∀ node ∈ nodes.find? (·.inField field), node.kind ≠ "computed_property_name") :
    readComputed source above field nodes = [] := by
  induction nodes with
  | nil => rfl
  | cons node rest ih =>
    rw [readComputed]
    by_cases hin : node.inField field = true
    · have hkind : (node.kind == "computed_property_name") = false :=
        beq_false_of_ne (h node (List.find?_cons_of_pos hin))
      rw [if_pos hin, hkind]
      rfl
    · rw [if_neg hin]
      exact ih fun other hother => h other (by simpa [hin] using hother)

/-- A function gives its name away if it is declared, and opens one scope for all the rest. -/
theorem read_function (source : Bytes) (above : List Node) {node : Node} {isDeclared : Bool}
    (hform : Form.ofKind node.kind = .function isDeclared)
    (hname : ∀ name ∈ node.child? "name", name.kind ≠ "computed_property_name") :
    ∃ items, read source above .expression node =
      (if isDeclared then declaredName source ⟨.functionName, node, false⟩ node else []) ++
        [.scope .function node items] := by
  obtain ⟨label, children⟩ := node
  have hform' : Form.ofKind label.kind = .function isDeclared := hform
  have hcomputed : readComputed source (⟨label, children⟩ :: above) "name" children = [] :=
    readComputed_eq_nil hname
  rw [read]
  simp only [Role.patternForm, hform', hcomputed, List.append_nil]
  exact ⟨_, rfl⟩

end Outline

namespace Item

open Arena

/-- A name that is given away is declared before all the rest. -/
theorem playAll_declaredName_append (a : Arena) (i : Nat) (source : Bytes) (isDeclared : Bool)
    (kind : DefinitionKind) (node : Node) (items : List Item) :
    playAll a i ((if isDeclared then Outline.declaredName source ⟨kind, node, false⟩ node else []) ++ items) =
      playAll (if isDeclared then a.giveName i source kind node else a) i items := by
  cases isDeclared with
  | false => rfl
  | true =>
    simp only [if_true, Outline.declaredName, giveName]
    rcases node.child? "name" with _ | name
    · rfl
    · simp only [Option.map_some, Option.getD_some, Outline.declared]
      split
      · rfl
      · simp [playAll, play, enter]

theorem playAll_scope (a : Arena) (i : Nat) (kind : ScopeKind) (node : Node) (items : List Item) :
    playAll a i [.scope kind node items] = playAll (a.openScope kind node (some i)) a.size items := by
  simp [playAll, play]

end Item

namespace Arena

variable (a : Arena) (i : Nat) (source : Bytes) (kind : DefinitionKind) (node : Node)

theorem skeleton_giveName : (a.giveName i source kind node).skeleton = a.skeleton := by
  rw [giveName]
  split
  · rfl
  · split
    · rfl
    · exact skeleton_declare _ _ _ _

theorem skeleton_giveName_ite (isDeclared : Bool) :
    (if isDeclared then a.giveName i source kind node else a).skeleton = a.skeleton := by
  cases isDeclared with
  | true => exact skeleton_giveName a i source kind node
  | false => rfl

end Arena

namespace Outline

open Item Arena

/-- **A function is sealed**, whatever stands in it. Of the scopes that were there when it is met, the current one
has the function's scope as a new child, and binds the name of a declared function; nothing else about them
changes. All uses in the function stand in new scopes. Every arena on the way through a file is `Descending`
(`Item.playAll_formed`, `Arena.Rooted.descending`). -/
theorem function_sealed (source : Bytes) (above : List Node) {node : Node} (hkind : node.kind ∈ functions)
    (hname : ∀ name ∈ node.child? "name", name.kind ≠ "computed_property_name")
    {a : Arena} (hdesc : a.Descending) {i : Nat} (hi : i < a.size) :
    let after := playAll a i (read source above .expression node)
    let named := if node.kind ∈ declaredFunctions then a.giveName i source .functionName node else a
    a.size < after.1.size ∧
    (∀ j < a.size, after.1.get? j = (named.get? j).map fun s =>
      { s with children := s.children ++ if j = i then [a.size] else [] }) ∧
    (after.1.get? a.size).map (fun s => (s.kind, s.node, s.parent)) = some (.function, node, some i) ∧
    ∀ use ∈ after.2, a.size ≤ use.scope := by
  intro after named
  obtain ⟨items, hread⟩ := read_function source above (form_of_mem_functions hkind) hname
  have hskel : named.skeleton = a.skeleton := by
    simpa using skeleton_giveName_ite a i source .functionName node (decide (node.kind ∈ declaredFunctions))
  have hsize : named.size = a.size := size_eq_of_skeleton hskel
  have hafter : after = playAll (named.openScope .function node (some i)) named.size items := by
    simp only [after, hread]
    rw [playAll_declaredName_append, playAll_scope]
    simp only [decide_eq_true_eq]
    rfl
  rw [← hsize] at hi ⊢
  have hnamed : named.Descending := hdesc.of_skeleton hskel.symm
  have hlt : named.size < (named.openScope .function node (some i)).size := by simp
  obtain ⟨opened, hinner⟩ := playAll_grown (hnamed.openScope .function node hi) hlt items
  rw [hafter]
  refine ⟨Nat.lt_of_lt_of_le hlt hinner.size_le, fun j hj => ?_, ?_, fun use huse => ?_⟩
  · rw [(hinner.scope hnamed hi).old j hj]
    rfl
  · rw [hinner.old _ hlt, get?_openScope_size]
    rfl
  · rcases scope_of_mem_playAll _ _ items use huse with heq | hle
    · exact Nat.le_of_eq heq.symm
    · rw [size_openScope] at hle
      exact Nat.le_of_succ_le hle

/-- A function that uses the names of the console and of the logger for its own. -/
def shadowingSource : Bytes :=
  Utf8.encode "function f(console){for(;;)var logger}".toList

/-- The tree of this file. -/
def shadowingRoot : Node :=
  Script.parse shadowingSource

/-- The function in it. -/
def shadowingFunction : Node :=
  shadowingRoot.children.head?.getD default

/-- The module binds the name of the function and no other. -/
theorem function_sealed_shadowing :
    shadowingFunction.kind ∈ functions ∧
    let after := playAll (ScopeTree.initialArena shadowingRoot []) 1
      (read shadowingSource [shadowingRoot] .expression shadowingFunction)
    (after.1.get? 1).map (fun s => (s.bindings.map Prod.fst, s.children)) = some (["f"], [2]) ∧
      (after.1.get? 2).map (·.kind) = some .function := by
  -- all of it is read off one tree, so it is computed together
  have hread : shadowingFunction.kind ∈ functions ∧ shadowingFunction.kind ∈ declaredFunctions ∧
      (∀ name ∈ shadowingFunction.child? "name", name.kind ≠ "computed_property_name") ∧
      (((ScopeTree.initialArena shadowingRoot []).giveName 1 shadowingSource .functionName
        shadowingFunction).get? 1).map (fun s => (s.bindings.map Prod.fst, s.children)) = some (["f"], []) := by
    decide +kernel
  obtain ⟨hkind, hdeclared, hname, hnamed⟩ := hread
  have hrooted := ScopeTree.initialArena_rooted shadowingRoot []
  have hsize : (ScopeTree.initialArena shadowingRoot []).size = 2 := by
    rw [ScopeTree.initialArena_eq]
    rfl
  obtain ⟨-, hold, hnew, -⟩ := function_sealed shadowingSource [shadowingRoot] hkind hname
    hrooted.descending hrooted.two_le_size
  refine ⟨hkind, ?_, ?_⟩
  · obtain ⟨s, hs, hshape⟩ := Option.map_eq_some_iff.mp hnamed
    obtain ⟨hnames, hchildren⟩ := Prod.mk.inj hshape
    rw [hold 1 hrooted.two_le_size, if_pos hdeclared, hs, hsize]
    simp [hnames, hchildren]
  · rw [hsize] at hnew
    obtain ⟨s, hs, hshape⟩ := Option.map_eq_some_iff.mp hnew
    rw [hs, Option.map_some, (Prod.mk.inj hshape).1]

/-! ## What gets out of a construct -/

/-- Does a construct of this kind declare names by itself, hoisted or not, that get out of it? -/
def declares (source : Bytes) (hoisted : Bool) (node : Node) : Bool :=
  match Form.ofKind node.kind with
  | .importing | .function true | .classBody true => !hoisted
  | .declarators isHoisted => hoisted == isHoisted
  | .forIn => hoisted && loopKeyword? source node == some "var"
  | _ => false

/-- Do declarations, hoisted or not, get out of a construct from this child? -/
def passes (hoisted : Bool) (node child : Node) : Bool :=
  match Form.ofKind node.kind with
  | .function _ => child.inField "name"
  | .classBody _ => false
  | .block | .forLoop | .forIn | .catchClause => hoisted
  | .switchStatement => child.inField "value"
  | _ => true

/-- Do declarations, hoisted or not, get out of a construct from what is in this child? -/
def passesWithin (hoisted : Bool) (node child : Node) : Bool :=
  match Form.ofKind node.kind with
  | .classBody _ => child.kind == "class_heritage" || (hoisted && child.inField "body")
  | .switchStatement => hoisted && child.inField "body"
  | _ => false

/-- A declaration, hoisted or not, stands at or below the node and gets out of it. -/
inductive LetsOut (source : Bytes) (hoisted : Bool) : Node → Prop where
  /-- the node declares the names -/
  | here {node : Node} (hnode : declares source hoisted node = true) : LetsOut source hoisted node
  /-- they get out of a child -/
  | child {node child : Node} (hchild : child ∈ node.children) (hpass : passes hoisted node child = true)
      (hout : LetsOut source hoisted child) : LetsOut source hoisted node
  /-- they get out of something in a child that is read in its place -/
  | grandchild {node child inner : Node} (hchild : child ∈ node.children) (hinner : inner ∈ child.children)
      (hpass : passesWithin hoisted node child = true) (hout : LetsOut source hoisted inner) :
      LetsOut source hoisted node

/-- What gets out of a node in a field gets out of the construct, if that is passed. -/
theorem LetsOut.of_field {hoisted : Bool} {node : Node} {field : String}
    (hpass : ∀ child, passes hoisted node child = true)
    (h : ∃ child ∈ node.children, child.inField field = true ∧ LetsOut source hoisted child) :
    LetsOut source hoisted node := by
  obtain ⟨child, hchild, -, hout⟩ := h
  exact .child hchild (hpass child) hout

theorem LetsOut.of_child {hoisted : Bool} {node : Node} (hpass : ∀ child, passes hoisted node child = true)
    (h : ∃ child ∈ node.children, LetsOut source hoisted child) : LetsOut source hoisted node := by
  obtain ⟨child, hchild, hout⟩ := h
  exact .child hchild (hpass child) hout

variable {d : Binder × String × Node}

theorem mem_exposedAll_scope {kind : ScopeKind} {node : Node} {items : List Item}
    (h : d ∈ exposedAll [.scope kind node items]) :
    kind.holdsVars = false ∧ d ∈ exposedAll items ∧ d.1.hoisted = true := by
  simp only [exposedAll, exposed, List.append_nil] at h
  split at h
  · cases h
  · rename_i hkind
    exact ⟨(Bool.not_eq_true _).mp hkind, List.mem_filter.mp h⟩

theorem binder_of_mem_declared {binder : Binder} {nameNode : Node}
    (h : d ∈ exposedAll (declared source binder nameNode)) : d.1 = binder := by
  rw [declared] at h
  split at h
  · cases h
  · rw [List.mem_singleton.mp h]

/-- What a function or a class declares outside of itself is its name, if it is declared. -/
theorem binder_of_mem_ownName {binder : Binder} {node : Node} {isDeclared : Bool}
    (h : d ∈ exposedAll (if isDeclared then declaredName source binder node else [])) :
    isDeclared = true ∧ d.1 = binder := by
  cases isDeclared with
  | false => cases h
  | true =>
    simp only [if_true, declaredName] at h
    rcases hname : node.child? "name" with _ | name
    · rw [hname] at h
      cases h
    · rw [hname] at h
      exact ⟨rfl, binder_of_mem_declared h⟩

theorem binder_of_mem_declaredIdentifier {binder : Binder} {node : Node}
    (h : d ∈ exposedAll (declaredIdentifier source binder node)) : d.1 = binder := by
  rw [declaredIdentifier] at h
  rcases hname : node.child? "name" with _ | name
  · rw [hname] at h
    cases h
  · rw [hname, Option.map_some, Option.getD_some] at h
    split at h
    · exact binder_of_mem_declared h
    · cases h

theorem binder_of_mem_imported {node : Node} (h : d ∈ exposedAll (imported source node)) :
    d.1 = ⟨.importBinding, node, false⟩ := by
  rw [imported] at h
  generalize (node.namedChildren.filter (·.kind == "import_clause")).flatMap _ = names at h
  induction names with
  | nil => cases h
  | cons name rest ih =>
    rw [List.flatMap_cons, exposedAll_append, List.mem_append] at h
    exact h.elim binder_of_mem_declared ih

theorem exposedAll_exportedNames (above : List Node) (clause : Node) :
    exposedAll (exportedNames source above clause) = [] := by
  rw [exportedNames]
  generalize clause.namedChildren.filter (·.kind == "export_specifier") = specifiers
  induction specifiers with
  | nil => rfl
  | cons specifier rest ih =>
    rw [List.filterMap_cons]
    split
    · exact ih
    · rename_i item hitem
      obtain ⟨name, -, rfl⟩ := Option.map_eq_some_iff.mp hitem
      exact ih

theorem binder_of_mem_named {above : List Node} {role : Role} {node : Node}
    (h : d ∈ exposedAll (named source above role node)) : role = .binding d.1 := by
  cases role with
  | binding binder => rw [binder_of_mem_declared h]
  | expression | target => cases h

/-- In a pattern that is no single name, nothing is held back. -/
theorem form_of_pattern {role : Role} {kind : String} {form : PatternForm} (h : role.patternForm kind = form)
    (hname : form ≠ .name) (hexpression : form ≠ .expression) : Form.ofKind kind = .other := by
  have hform : PatternForm.ofKind kind = form := by
    cases role with
    | expression => exact absurd h.symm hexpression
    | binding _ | target => exact h
  unfold PatternForm.ofKind at hform
  split at hform
  all_goals first
    | rfl
    | exact absurd hform.symm hname
    | exact absurd hform.symm hexpression

theorem passes_of_pattern {role : Role} (node : Node) {form : PatternForm}
    (h : role.patternForm node.kind = form) (hname : form ≠ .name) (hexpression : form ≠ .expression)
    (hoisted : Bool) (child : Node) : passes hoisted node child = true := by
  rw [passes, form_of_pattern h hname hexpression]

/-- A loop over keys hoists what it declares when it declares it with `var`. -/
theorem loopKeyword?_of_role {node : Node} {binder : Binder} (h : loopRole source node = .binding binder)
    (hhoisted : binder.hoisted = true) : loopKeyword? source node = some "var" := by
  rw [loopRole] at h
  rcases hkeyword : loopKeyword? source node with _ | keyword
  · rw [hkeyword] at h
    cases h
  · rw [hkeyword] at h
    rw [← Role.binding.inj h, beq_iff_eq] at hhoisted
    rw [hhoisted]

/-- The name of a class is not hoisted out of it. -/
theorem filter_exposedAll_classItems {node : Node} {isDeclared : Bool} {items : List Item} :
    (exposedAll ((if isDeclared then [] else declaredIdentifier source ⟨.className, node, false⟩ node) ++
      items)).filter (·.1.hoisted) = (exposedAll items).filter (·.1.hoisted) := by
  rw [exposedAll_append, List.filter_append]
  suffices hname : (exposedAll (if isDeclared then []
      else declaredIdentifier source ⟨.className, node, false⟩ node)).filter (·.1.hoisted) = [] by
    rw [hname, List.nil_append]
  refine List.filter_eq_nil_iff.mpr fun d hd => ?_
  split at hd
  · cases hd
  · rw [binder_of_mem_declaredIdentifier hd]
    exact Bool.false_ne_true

theorem mem_of_mem_classItems {node : Node} {isDeclared : Bool} {items : List Item}
    (h : d ∈ exposedAll ((if isDeclared then []
      else declaredIdentifier source ⟨.className, node, false⟩ node) ++ items))
    (hhoisted : d.1.hoisted = true) : d ∈ exposedAll items := by
  have hmem : d ∈ (exposedAll _).filter (·.1.hoisted) := List.mem_filter.mpr ⟨h, hhoisted⟩
  rw [filter_exposedAll_classItems] at hmem
  exact (List.mem_filter.mp hmem).1

/-! ## What is exposed gets out

One theorem for each of the functions that read a tree: what they expose is declared by the role in which they
read, or gets out of the nodes that they read. A function exposes nothing but what gets out of its name, so what
is read inside of one does not matter. -/

mutual

/-- **What a node exposes gets out of it**, unless the role in which it is read declares it. -/
theorem letsOut_of_mem_read (above : List Node) (role : Role) :
    (node : Node) → d ∈ exposedAll (read source above role node) →
      role = .binding d.1 ∨ LetsOut source d.1.hoisted node
  | ⟨label, children⟩, h => by
    rw [read] at h
    cases hpattern : role.patternForm label.kind with
    | name =>
      simp only [hpattern] at h
      exact .inl (binder_of_mem_named h)
    | group =>
      simp only [hpattern] at h
      exact (letsOut_of_mem_readAll _ role children h).imp_right
        (.of_child (passes_of_pattern ⟨label, children⟩ hpattern nofun nofun _))
    | pair =>
      have hpass := passes_of_pattern ⟨label, children⟩ hpattern nofun nofun d.1.hoisted
      simp only [hpattern, exposedAll_append, List.mem_append] at h
      rcases h with hkey | hvalue
      · exact .inr (.of_field hpass (letsOut_of_mem_readComputed _ "key" children hkey))
      · exact (letsOut_of_mem_readField _ role "value" children hvalue).imp_right (.of_field hpass)
    | withDefault =>
      have hpass := passes_of_pattern ⟨label, children⟩ hpattern nofun nofun d.1.hoisted
      simp only [hpattern, exposedAll_append, List.mem_append] at h
      rcases h with hleft | hright
      · exact (letsOut_of_mem_readField _ role "left" children hleft).imp_right (.of_field hpass)
      · exact .inr (.of_field hpass
          ((letsOut_of_mem_readField _ .expression "right" children hright).resolve_left nofun))
    | comment =>
      simp only [hpattern] at h
      cases h
    | expression =>
      simp only [hpattern] at h
      refine .inr ?_
      cases hform : Form.ofKind label.kind with
      | name =>
        simp only [hform] at h
        cases h
      | importing =>
        simp only [hform] at h
        exact .here (by simp [declares, Node.kind, Node.label, hform, binder_of_mem_imported h])
      | exporting =>
        simp only [hform] at h
        exact .of_child (fun child => by simp [passes, Node.kind, Node.label, hform])
          (letsOut_of_mem_readExported _ _ children h)
      | declarators hoisted =>
        simp only [hform] at h
        rcases letsOut_of_mem_readDeclarators _ hoisted children h with heq | hout
        · exact .here (by simp [declares, Node.kind, Node.label, hform, heq])
        · exact .of_child (fun child => by simp [passes, Node.kind, Node.label, hform]) hout
      | function isDeclared =>
        simp only [hform, exposedAll_append, List.mem_append] at h
        rcases h with (hname | hcomputed) | hscope
        · obtain ⟨hdeclared, hbinder⟩ := binder_of_mem_ownName hname
          exact .here (by simp [declares, Node.kind, Node.label, hform, hdeclared, hbinder])
        · obtain ⟨child, hchild, hin, hout⟩ := letsOut_of_mem_readComputed _ "name" children hcomputed
          exact .child hchild (by simpa [passes, Node.kind, Node.label, hform] using hin) hout
        · -- the scope of a function holds hoisted declarations, so it exposes nothing
          exact absurd (mem_exposedAll_scope hscope).1 (by decide)
      | classBody isDeclared =>
        simp only [hform, exposedAll_append, List.mem_append] at h
        rcases h with (hname | hheritage) | hscope
        · obtain ⟨hdeclared, hbinder⟩ := binder_of_mem_ownName hname
          exact .here (by simp [declares, Node.kind, Node.label, hform, hdeclared, hbinder])
        · obtain ⟨child, hchild, hkind, inner, hinner, hout⟩ :=
            letsOut_of_mem_readHeritage _ children hheritage
          exact .grandchild hchild hinner
            (by simp [passesWithin, Node.kind, Node.label, hform, ← hkind]) hout
        · -- that of a class lets the hoisted ones through; the name that a class binds inside is not one
          obtain ⟨-, hitems, hhoisted⟩ := mem_exposedAll_scope hscope
          obtain ⟨child, hchild, hin, inner, hinner, hout⟩ :=
            (letsOut_of_mem_readWithin _ .expression "body" children
              (mem_of_mem_classItems hitems hhoisted)).resolve_left nofun
          exact .grandchild hchild hinner
            (by simp [passesWithin, Node.kind, Node.label, hform, hhoisted, hin]) hout
      | block | forLoop =>
        simp only [hform] at h
        obtain ⟨-, hitems, hhoisted⟩ := mem_exposedAll_scope h
        exact .of_child (fun child => by simp [passes, Node.kind, Node.label, hform, hhoisted])
          ((letsOut_of_mem_readAll _ .expression children hitems).resolve_left nofun)
      | forIn =>
        simp only [hform] at h
        obtain ⟨-, hitems, hhoisted⟩ := mem_exposedAll_scope h
        have hpass : ∀ child, passes d.1.hoisted ⟨label, children⟩ child = true := fun child => by
          simp [passes, Node.kind, Node.label, hform, hhoisted]
        simp only [exposedAll_append, List.mem_append] at hitems
        rcases hitems with (hleft | hright) | hbody
        · rcases letsOut_of_mem_readField _ _ "left" children hleft with hrole | hout
          · have hkeyword := loopKeyword?_of_role hrole hhoisted
            exact .here (by simp [declares, Node.kind, Node.label, hform, hkeyword, hhoisted])
          · exact .of_field hpass hout
        · exact .of_field hpass
            ((letsOut_of_mem_readField _ .expression "right" children hright).resolve_left nofun)
        · exact .of_field hpass
            ((letsOut_of_mem_readField _ .expression "body" children hbody).resolve_left nofun)
      | catchClause =>
        simp only [hform] at h
        obtain ⟨-, hitems, hhoisted⟩ := mem_exposedAll_scope h
        have hpass : ∀ child, passes d.1.hoisted ⟨label, children⟩ child = true := fun child => by
          simp [passes, Node.kind, Node.label, hform, hhoisted]
        simp only [exposedAll_append, List.mem_append] at hitems
        rcases hitems with hparameter | hbody
        · rcases letsOut_of_mem_readField _ _ "parameter" children hparameter with hrole | hout
          · rw [← Role.binding.inj hrole] at hhoisted
            cases hhoisted
          · exact .of_field hpass hout
        · exact .of_field hpass
            ((letsOut_of_mem_readField _ .expression "body" children hbody).resolve_left nofun)
      | switchStatement =>
        simp only [hform, exposedAll_append, List.mem_append] at h
        rcases h with hvalue | hbody
        · obtain ⟨child, hchild, hin, hout⟩ :=
            (letsOut_of_mem_readField _ .expression "value" children hvalue).resolve_left nofun
          exact .child hchild (by simpa [passes, Node.kind, Node.label, hform] using hin) hout
        · obtain ⟨hhoisted, child, hchild, hin, inner, hinner, hout⟩ :=
            letsOut_of_mem_readSwitchBody _ children hbody
          exact .grandchild hchild hinner
            (by simp [passesWithin, Node.kind, Node.label, hform, hhoisted, hin]) hout
      | assignment =>
        have hpass : ∀ child, passes d.1.hoisted ⟨label, children⟩ child = true := fun child => by
          simp [passes, Node.kind, Node.label, hform]
        simp only [hform, exposedAll_append, List.mem_append] at h
        rcases h with hleft | hright
        · exact .of_child hpass (letsOut_of_mem_readTarget _ children hleft)
        · exact .of_field hpass
            ((letsOut_of_mem_readField _ .expression "right" children hright).resolve_left nofun)
      | other =>
        simp only [hform] at h
        exact .of_child (fun child => by simp [passes, Node.kind, Node.label, hform])
          ((letsOut_of_mem_readAll _ .expression children h).resolve_left nofun)
termination_by structural node => node

theorem letsOut_of_mem_readAll (above : List Node) (role : Role) :
    (nodes : List Node) → d ∈ exposedAll (readAll source above role nodes) →
      role = .binding d.1 ∨ ∃ node ∈ nodes, LetsOut source d.1.hoisted node
  | [], h => by cases h
  | node :: rest, h => by
    rw [readAll, exposedAll_append, List.mem_append] at h
    rcases h with hfirst | hrest
    · split at hfirst
      · exact (letsOut_of_mem_read above role node hfirst).imp_right fun hout => ⟨node, .head _, hout⟩
      · cases hfirst
    · exact (letsOut_of_mem_readAll above role rest hrest).imp_right List.exists_mem_cons_of_exists
termination_by structural nodes => nodes

theorem letsOut_of_mem_readField (above : List Node) (role : Role) (field : String) :
    (nodes : List Node) → d ∈ exposedAll (readField source above role field nodes) →
      role = .binding d.1 ∨ ∃ node ∈ nodes, node.inField field = true ∧ LetsOut source d.1.hoisted node
  | [], h => by cases h
  | node :: rest, h => by
    rw [readField] at h
    split at h
    · rename_i hin
      exact (letsOut_of_mem_read above role node h).imp_right fun hout => ⟨node, .head _, hin, hout⟩
    · exact (letsOut_of_mem_readField above role field rest h).imp_right List.exists_mem_cons_of_exists
termination_by structural nodes => nodes

theorem letsOut_of_mem_readWithin (above : List Node) (role : Role) (field : String) :
    (nodes : List Node) → d ∈ exposedAll (readWithin source above role field nodes) →
      role = .binding d.1 ∨ ∃ node ∈ nodes, node.inField field = true ∧
        ∃ inner ∈ node.children, LetsOut source d.1.hoisted inner
  | [], h => by cases h
  | ⟨label, children⟩ :: rest, h => by
    rw [readWithin] at h
    split at h
    · rename_i hin
      exact (letsOut_of_mem_readAll _ role children h).imp_right fun hout => ⟨_, .head _, hin, hout⟩
    · exact (letsOut_of_mem_readWithin above role field rest h).imp_right List.exists_mem_cons_of_exists
termination_by structural nodes => nodes

theorem letsOut_of_mem_readComputed (above : List Node) (field : String) :
    (nodes : List Node) → d ∈ exposedAll (readComputed source above field nodes) →
      ∃ node ∈ nodes, node.inField field = true ∧ LetsOut source d.1.hoisted node
  | [], h => by cases h
  | node :: rest, h => by
    rw [readComputed] at h
    split at h
    · rename_i hin
      split at h
      · exact ⟨node, .head _, hin, (letsOut_of_mem_read above .expression node h).resolve_left nofun⟩
      · cases h
    · exact List.exists_mem_cons_of_exists (letsOut_of_mem_readComputed above field rest h)
termination_by structural nodes => nodes

theorem letsOut_of_mem_readHeritage (above : List Node) :
    (nodes : List Node) → d ∈ exposedAll (readHeritage source above nodes) →
      ∃ node ∈ nodes, node.kind = "class_heritage" ∧
        ∃ inner ∈ node.children, LetsOut source d.1.hoisted inner
  | [], h => by cases h
  | ⟨label, children⟩ :: rest, h => by
    rw [readHeritage, exposedAll_append, List.mem_append] at h
    rcases h with hfirst | hrest
    · split at hfirst
      · rename_i hkind
        simp only [Bool.and_eq_true, beq_iff_eq] at hkind
        exact ⟨_, .head _, hkind.2,
          (letsOut_of_mem_readAll _ .expression children hfirst).resolve_left nofun⟩
      · cases hfirst
    · exact List.exists_mem_cons_of_exists (letsOut_of_mem_readHeritage above rest hrest)
termination_by structural nodes => nodes

theorem letsOut_of_mem_readSwitchBody (above : List Node) :
    (nodes : List Node) → d ∈ exposedAll (readSwitchBody source above nodes) →
      d.1.hoisted = true ∧ ∃ node ∈ nodes, node.inField "body" = true ∧
        ∃ inner ∈ node.children, LetsOut source d.1.hoisted inner
  | [], h => by cases h
  | ⟨label, children⟩ :: rest, h => by
    rw [readSwitchBody] at h
    split at h
    · rename_i hin
      obtain ⟨-, hitems, hhoisted⟩ := mem_exposedAll_scope h
      exact ⟨hhoisted, _, .head _, hin,
        (letsOut_of_mem_readAll _ .expression children hitems).resolve_left nofun⟩
    · exact (letsOut_of_mem_readSwitchBody above rest h).imp_right List.exists_mem_cons_of_exists
termination_by structural nodes => nodes

theorem letsOut_of_mem_readTarget (above : List Node) :
    (nodes : List Node) → d ∈ exposedAll (readTarget source above nodes) →
      ∃ node ∈ nodes, LetsOut source d.1.hoisted node
  | [], h => by cases h
  | node :: rest, h => by
    rw [readTarget] at h
    split at h
    · refine ⟨node, .head _, (letsOut_of_mem_read above _ node h).resolve_left ?_⟩
      rw [Role.ofTarget]
      split <;> nofun
    · exact List.exists_mem_cons_of_exists (letsOut_of_mem_readTarget above rest h)
termination_by structural nodes => nodes

theorem letsOut_of_mem_readExported (above : List Node) (passedOn : Bool) :
    (nodes : List Node) → d ∈ exposedAll (readExported source above passedOn nodes) →
      ∃ node ∈ nodes, LetsOut source d.1.hoisted node
  | [], h => by cases h
  | node :: rest, h => by
    rw [readExported, exposedAll_append, List.mem_append] at h
    rcases h with hfirst | hrest
    · split at hfirst
      · cases hfirst
      · split at hfirst
        · split at hfirst
          · cases hfirst
          · rw [exposedAll_exportedNames] at hfirst
            cases hfirst
        · split at hfirst
          · cases hfirst
          · exact ⟨node, .head _, (letsOut_of_mem_read above .expression node hfirst).resolve_left nofun⟩
    · exact List.exists_mem_cons_of_exists (letsOut_of_mem_readExported above passedOn rest hrest)
termination_by structural nodes => nodes

theorem letsOut_of_mem_readDeclarators (above : List Node) (hoisted : Bool) :
    (nodes : List Node) → d ∈ exposedAll (readDeclarators source above hoisted nodes) →
      d.1.hoisted = hoisted ∨ ∃ node ∈ nodes, LetsOut source d.1.hoisted node
  | [], h => by cases h
  | ⟨label, children⟩ :: rest, h => by
    rw [readDeclarators, exposedAll_append, List.mem_append] at h
    rcases h with hfirst | hrest
    · split at hfirst
      · rename_i hkind
        simp only [Bool.and_eq_true, beq_iff_eq] at hkind
        have hpass : ∀ child, passes d.1.hoisted ⟨label, children⟩ child = true := fun child => by
          rw [passes, Node.kind, Node.label, hkind.2]
          rfl
        rw [exposedAll_append, List.mem_append] at hfirst
        rcases hfirst with hname | hvalue
        · rcases letsOut_of_mem_readField _ _ "name" children hname with hrole | hout
          · exact .inl (congrArg Binder.hoisted (Role.binding.inj hrole)).symm
          · exact .inr ⟨_, .head _, .of_field hpass hout⟩
        · have hout := (letsOut_of_mem_readField _ .expression "value" children hvalue).resolve_left nofun
          exact .inr ⟨_, .head _, .of_field hpass hout⟩
      · cases hfirst
    · exact (letsOut_of_mem_readDeclarators above hoisted rest hrest).imp_right List.exists_mem_cons_of_exists
termination_by structural nodes => nodes

end

/-! ## Classes -/

/-- The kinds of class. -/
def classes : List String :=
  ["class_declaration", "class"]

/-- What a class lets out: what its heritage clauses expose, and what is hoisted out of its body. -/
def leaked (source : Bytes) (above : List Node) (node : Node) : List (Binder × String × Node) :=
  exposedAll (readHeritage source (node :: above) node.children) ++
    (exposedAll (readWithin source (node :: above) .expression "body" node.children)).filter (·.1.hoisted)

theorem form_of_mem_classes {kind : String} (h : kind ∈ classes) :
    Form.ofKind kind = .classBody (kind == "class_declaration") := by
  simp only [classes, List.mem_cons, List.not_mem_nil, or_false] at h
  rcases h with rfl | rfl <;> rfl

/-- A class gives its name away if it is declared, and lets out what it lets out. -/
theorem read_class (source : Bytes) (above : List Node) {node : Node} {isDeclared : Bool}
    (hform : Form.ofKind node.kind = .classBody isDeclared) :
    ∃ items, read source above .expression node =
      (if isDeclared then declaredName source ⟨.className, node, false⟩ node else []) ++ items ∧
        exposedAll items = leaked source above node := by
  obtain ⟨label, children⟩ := node
  have hform' : Form.ofKind label.kind = .classBody isDeclared := hform
  rw [read]
  simp only [Role.patternForm, hform', List.append_assoc]
  refine ⟨_, rfl, ?_⟩
  rw [exposedAll_append, leaked]
  simp only [exposedAll, exposed, ScopeKind.holdsVars, Bool.false_eq_true, if_false, List.append_nil,
    filter_exposedAll_classItems]
  rfl

/-- What is leaked gets out of the class: hoisted as a `var` anywhere in it, or else declared in a heritage
clause. -/
theorem letsOut_of_mem_leaked {above : List Node} {node : Node} {isDeclared : Bool}
    (hform : Form.ofKind node.kind = .classBody isDeclared) (h : d ∈ leaked source above node) :
    LetsOut source true node ∨
      ∃ child ∈ node.children, child.kind = "class_heritage" ∧ ∃ inner ∈ child.children,
        LetsOut source false inner := by
  rw [leaked, List.mem_append] at h
  rcases h with hheritage | hbody
  · obtain ⟨child, hchild, hkind, inner, hinner, hout⟩ := letsOut_of_mem_readHeritage _ _ hheritage
    cases hhoisted : d.1.hoisted with
    | true =>
      rw [hhoisted] at hout
      exact .inl (.grandchild hchild hinner (by simp [passesWithin, hform, hkind]) hout)
    | false =>
      rw [hhoisted] at hout
      exact .inr ⟨child, hchild, hkind, inner, hinner, hout⟩
  · obtain ⟨hbody, hhoisted⟩ := List.mem_filter.mp hbody
    obtain ⟨child, hchild, hin, inner, hinner, hout⟩ :=
      (letsOut_of_mem_readWithin _ .expression "body" _ hbody).resolve_left nofun
    rw [hhoisted] at hout
    exact .inl (.grandchild hchild hinner (by simp [passesWithin, hform, hin]) hout)

/-- **A class keeps what it does not hoist.** The scopes that were there when it is met bind the name of a declared
class and the names that it leaks, and the current one has new children; nothing else about them changes. So they
bind what they bound, that name apart, exactly when the class leaks nothing, and it leaks nothing if no `var` gets
out of it and its heritage clauses declare nothing. -/
theorem class_keeps_iff (source : Bytes) (above : List Node) {node : Node} (hkind : node.kind ∈ classes)
    {a : Arena} (hdesc : a.Descending) {i : Nat} (hi : i < a.size) :
    let after := playAll a i (read source above .expression node)
    let named := if node.kind = "class_declaration" then a.giveName i source .className node else a
    (∃ opened, ∀ j < a.size, after.1.get? j = (named.get? j).map fun s =>
      { s with
        bindings := s.bindings.declareAll j (named.reaching i (leaked source above node) j)
        children := s.children ++ if j = i then opened else [] }) ∧
    ((∀ j < a.size, (after.1.get? j).map (·.bindings) = (named.get? j).map (·.bindings)) ↔
      leaked source above node = []) ∧
    (¬ LetsOut source true node →
      (∀ child ∈ node.children, child.kind = "class_heritage" → ∀ inner ∈ child.children,
        ¬ LetsOut source false inner) →
      leaked source above node = []) := by
  intro after named
  have hform := form_of_mem_classes hkind
  obtain ⟨items, hread, hleaked⟩ := read_class source above hform
  have hskel : named.skeleton = a.skeleton := by
    simpa using skeleton_giveName_ite a i source .className node (node.kind == "class_declaration")
  have hsize : named.size = a.size := size_eq_of_skeleton hskel
  have hnamed : named.Descending := hdesc.of_skeleton hskel.symm
  have hafter : after.1 = (playAll named i items).1 := by
    simp only [after, hread]
    rw [playAll_declaredName_append]
    simp only [beq_iff_eq]
    rfl
  rw [← hsize] at hi ⊢
  obtain ⟨opened, hgrown⟩ := playAll_grown hnamed hi items
  rw [hleaked, ← hafter] at hgrown
  refine ⟨⟨opened, hgrown.old⟩, hgrown.bindings_eq_iff hnamed hi, fun hvar hheritage => ?_⟩
  refine List.eq_nil_iff_forall_not_mem.mpr fun declaration hmem => ?_
  rcases letsOut_of_mem_leaked hform hmem with hout | ⟨child, hchild, hkind, inner, hinner, hout⟩
  · exact hvar hout
  · exact hheritage child hchild hkind inner hinner hout

/-- A class with a method that declares the console. -/
def keepingSource : Bytes :=
  Utf8.encode "class A{m(){var console}}".toList

/-- The tree of this file. -/
def keepingRoot : Node :=
  Script.parse keepingSource

/-- The class in it. -/
def keepingClass : Node :=
  keepingRoot.children.head?.getD default

/-- The module binds the name of the class and no other. -/
theorem class_keeps_method_var :
    keepingClass.kind ∈ classes ∧ leaked keepingSource [keepingRoot] keepingClass = [] ∧
    ((playAll (ScopeTree.initialArena keepingRoot []) 1
      (read keepingSource [keepingRoot] .expression keepingClass)).1.get? 1).map
        (fun s => s.bindings.map Prod.fst) = some ["A"] := by
  have hread : keepingClass.kind ∈ classes ∧ keepingClass.kind = "class_declaration" ∧
      (leaked keepingSource [keepingRoot] keepingClass).isEmpty = true ∧
      (((ScopeTree.initialArena keepingRoot []).giveName 1 keepingSource .className
        keepingClass).get? 1).map (fun s => s.bindings.map Prod.fst) = some ["A"] := by
    decide +kernel
  obtain ⟨hkind, hdeclared, hempty, hnamed⟩ := hread
  have hleaked := List.isEmpty_iff.mp hempty
  have hrooted := ScopeTree.initialArena_rooted keepingRoot []
  have hsame := (class_keeps_iff keepingSource [keepingRoot] hkind hrooted.descending
    hrooted.two_le_size).2.1.mpr hleaked 1 hrooted.two_le_size
  rw [if_pos hdeclared] at hsame
  have hnames := congrArg (Option.map fun bindings => bindings.map Prod.fst) hsame
  rw [Option.map_map, Option.map_map] at hnames
  exact ⟨hkind, hleaked, hnames.trans hnamed⟩

/-- A class with a static block that declares the console, and a call of the native one behind it. -/
def leakingSource : Bytes :=
  Utf8.encode "class A{static{var console}}console.info(1)".toList

/-- The tree of this file. -/
def leakingRoot : Node :=
  Script.parse leakingSource

/-- The class in it. -/
def leakingClass : Node :=
  leakingRoot.children.head?.getD default

/-- **A `var` in a static block leaks.** The class makes the module bind the console, which is then taken for one
that the file declares, and the call is not reported. -/
theorem static_block_leaks_var :
    leakingRoot.errors = [] ∧ leakingClass.kind = "class_declaration" ∧
    ¬ (∀ j < 2, ((playAll (ScopeTree.initialArena leakingRoot []) 1
        (read leakingSource [leakingRoot] .expression leakingClass)).1.get? j).map (·.bindings) =
      (((ScopeTree.initialArena leakingRoot []).giveName 1 leakingSource .className
        leakingClass).get? j).map (·.bindings)) ∧
    ((ScopeTree.analyze leakingSource leakingRoot []).arena.top?.map fun top =>
      (Console.resolve (ScopeTree.analyze leakingSource leakingRoot []).arena top).binding) =
        some .shadowed ∧
    Console.reports (.analyze leakingSource leakingRoot []) "a.js" = [] := by
  have hread : leakingRoot.errors.isEmpty = true ∧ leakingClass.kind = "class_declaration" ∧
      ((playAll (ScopeTree.initialArena leakingRoot []) 1
        (read leakingSource [leakingRoot] .expression leakingClass)).1.get? 1).map
          (fun s => s.bindings.map Prod.fst) = some ["A", "console"] ∧
      (((ScopeTree.initialArena leakingRoot []).giveName 1 leakingSource .className
        leakingClass).get? 1).map (fun s => s.bindings.map Prod.fst) = some ["A"] ∧
      ((ScopeTree.analyze leakingSource leakingRoot []).arena.top?.map fun top =>
        (Console.resolve (ScopeTree.analyze leakingSource leakingRoot []).arena top).binding) =
          some .shadowed ∧
      (Console.reports (.analyze leakingSource leakingRoot []) "a.js").isEmpty = true := by
    decide +kernel
  obtain ⟨herrors, hkind, hafter, hnamed, hshadowed, hreports⟩ := hread
  refine ⟨List.isEmpty_iff.mp herrors, hkind, fun hclaim => ?_, hshadowed, List.isEmpty_iff.mp hreports⟩
  have hnames := congrArg (Option.map fun bindings => bindings.map Prod.fst) (hclaim 1 (by decide))
  rw [Option.map_map, Option.map_map] at hnames
  exact absurd (hafter.symm.trans (hnames.trans hnamed)) (by decide)

end Outline

end LoggerLint
