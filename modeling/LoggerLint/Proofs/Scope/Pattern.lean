import LoggerLint.Proofs.Scope.Frame
import LoggerLint.Script.Program

/-!
# Patterns that declare and patterns that are written to

One pattern can stand on the left of a declaration and on the left of an assignment. The `leaves` of a pattern
are its names, keys and default values apart. Read in the two roles, a pattern has the same items in the same
order, but for its leaves: a declaration declares them where an assignment uses them (`Outline.alike_read`).

So from one arena both readings open the same scopes, and default values and computed keys use the same names
and declare the same names there. The uses of the assignment are those of the declaration with the leaves put
in; and where the declaration binds, it adds the leaves to the definitions of the assignment
(`Outline.pattern_declares_what_it_assigns`).
-/

namespace LoggerLint

/-! ## Putting lists together -/

/-- The third list is put together from the other two, each of which keeps its order. -/
inductive Interleaved {α : Type} : List α → List α → List α → Prop where
  /-- nothing from nothing -/
  | nil : Interleaved [] [] []
  /-- the next element comes from the first list -/
  | left {x : α} {xs ys zs : List α} (h : Interleaved xs ys zs) : Interleaved (x :: xs) ys (x :: zs)
  /-- the next element comes from the second list -/
  | right {y : α} {xs ys zs : List α} (h : Interleaved xs ys zs) : Interleaved xs (y :: ys) (y :: zs)

namespace Interleaved

variable {α : Type}

/-- Nothing is put in. -/
theorem nil_left : (ys : List α) → Interleaved [] ys ys
  | [] => .nil
  | _ :: ys => .right (nil_left ys)

/-- All the same elements may come first in both. -/
theorem append_left {xs ys zs : List α} (h : Interleaved xs ys zs) :
    (more : List α) → Interleaved xs (more ++ ys) (more ++ zs)
  | [] => h
  | _ :: more => .right (h.append_left more)

/-- The last element may come from the first list, … -/
theorem concat_left {xs ys zs : List α} (h : Interleaved xs ys zs) (x : α) :
    Interleaved (xs ++ [x]) ys (zs ++ [x]) := by
  induction h with
  | nil => exact .left .nil
  | left _ ih => exact .left ih
  | right _ ih => exact .right ih

/-- … and from the second one. -/
theorem concat_right {xs ys zs : List α} (h : Interleaved xs ys zs) (y : α) :
    Interleaved xs (ys ++ [y]) (zs ++ [y]) := by
  induction h with
  | nil => exact .right .nil
  | left _ ih => exact .left ih
  | right _ ih => exact .right ih

end Interleaved

namespace Outline

/-! ## The names of a pattern -/

mutual

/-- The names of a pattern, in order. -/
def leaves (above : List Node) : Node → List Site
  | ⟨label, children⟩ =>
    let node : Node := ⟨label, children⟩
    match PatternForm.ofKind label.kind with
    | .name => [⟨node, above⟩]
    | .group => leavesOfAll (node :: above) children
    | .pair => leavesInField (node :: above) "value" children
    | .withDefault => leavesInField (node :: above) "left" children
    | .comment | .expression => []
termination_by structural node => node

/-- The names of patterns, in order. -/
def leavesOfAll (above : List Node) : List Node → List Site
  | [] => []
  | node :: rest => (if node.named then leaves above node else []) ++ leavesOfAll above rest
termination_by structural nodes => nodes

/-- The names of the pattern in a field. -/
def leavesInField (above : List Node) (field : String) : List Node → List Site
  | [] => []
  | node :: rest => if node.inField field then leaves above node else leavesInField above field rest
termination_by structural nodes => nodes

end

/-! ## Items alike -/

/-- Two readings of a pattern with these names: the first one uses the names and the second one declares
them, and all other items are the same. -/
inductive Alike (source : Bytes) (binder : Binder) : List Site → List Item → List Item → Prop where
  /-- nothing is read -/
  | nil : Alike source binder [] [] []
  /-- a name -/
  | name (leaf : Site) {leaves : List Site} {written bound : List Item}
      (h : Alike source binder leaves written bound) :
      Alike source binder (leaf :: leaves) (useOf source leaf.above leaf.node :: written)
        (.declare binder (leaf.node.text source) leaf.node :: bound)
  /-- an item of a default value or a computed key -/
  | same (item : Item) {leaves : List Site} {written bound : List Item}
      (h : Alike source binder leaves written bound) :
      Alike source binder leaves (item :: written) (item :: bound)

namespace Alike

variable {source : Bytes} {binder : Binder} {leaves more : List Site}
  {written bound written' bound' : List Item}

theorem append (h : Alike source binder leaves written bound)
    (hmore : Alike source binder more written' bound') :
    Alike source binder (leaves ++ more) (written ++ written') (bound ++ bound') := by
  induction h with
  | nil => exact hmore
  | name leaf _ ih => exact .name leaf ih
  | same item _ ih => exact .same item ih

theorem refl (items : List Item) : Alike source binder [] items items := by
  induction items with
  | nil => exact .nil
  | cons item _ ih => exact .same item ih

/-- The names are declared where the other reading declares nothing. -/
theorem declarationsAll (h : Alike source binder leaves written bound) :
    Interleaved (leaves.map fun leaf => (binder, leaf.node.text source, leaf.node))
      (Item.declarationsAll written) (Item.declarationsAll bound) := by
  induction h with
  | nil => exact .nil
  | name leaf _ ih => exact .left ih
  | same item _ ih => exact ih.append_left _

end Alike

/-! ## The two roles -/

section

variable {source : Bytes} {binder : Binder}

mutual

/-- **Read in the two roles a pattern has the same items**, but for its names. -/
theorem alike_read (above : List Node) :
    (node : Node) → (∀ leaf ∈ leaves above node, leaf.node.text source ≠ "") →
      Alike source binder (leaves above node) (read source above .target node)
        (read source above (.binding binder) node)
  | ⟨label, children⟩, hnames => by
    rw [leaves] at hnames ⊢
    rw [read, read]
    simp only [Role.patternForm]
    cases hform : PatternForm.ofKind label.kind with
    | name =>
      simp only [hform, List.mem_singleton, forall_eq] at hnames
      simp only [named, declared, if_neg hnames]
      exact .name _ .nil
    | group =>
      simp only [hform] at hnames ⊢
      exact alike_readAll _ children hnames
    | pair =>
      simp only [hform] at hnames ⊢
      exact (Alike.refl _).append (alike_readField _ "value" children hnames)
    | withDefault =>
      simp only [hform] at hnames ⊢
      have hleft := alike_readField _ "left" children hnames
      simpa only [List.append_nil] using hleft.append (.refl _)
    | comment => exact .nil
    | expression => exact .refl _
termination_by structural node => node

theorem alike_readAll (above : List Node) :
    (nodes : List Node) → (∀ leaf ∈ leavesOfAll above nodes, leaf.node.text source ≠ "") →
      Alike source binder (leavesOfAll above nodes) (readAll source above .target nodes)
        (readAll source above (.binding binder) nodes)
  | [], _ => .nil
  | node :: rest, hnames => by
    rw [leavesOfAll] at hnames ⊢
    rw [readAll, readAll]
    have hrest := alike_readAll above rest fun leaf hleaf => hnames leaf (List.mem_append_right _ hleaf)
    by_cases hnamed : node.named
    · simp only [hnamed, if_true] at hnames ⊢
      have hnode := alike_read above node fun leaf hleaf => hnames leaf (List.mem_append_left _ hleaf)
      exact hnode.append hrest
    · simp only [hnamed, Bool.false_eq_true, if_false]
      exact hrest
termination_by structural nodes => nodes

theorem alike_readField (above : List Node) (field : String) :
    (nodes : List Node) → (∀ leaf ∈ leavesInField above field nodes, leaf.node.text source ≠ "") →
      Alike source binder (leavesInField above field nodes) (readField source above .target field nodes)
        (readField source above (.binding binder) field nodes)
  | [], _ => .nil
  | node :: rest, hnames => by
    rw [leavesInField] at hnames ⊢
    rw [readField, readField]
    by_cases hfield : node.inField field
    · simp only [hfield, if_true] at hnames ⊢
      exact alike_read above node hnames
    · simp only [hfield, Bool.false_eq_true, if_false] at hnames ⊢
      exact alike_readField above field rest hnames
termination_by structural nodes => nodes

end

end

end Outline

/-! ## Arenas beside each other -/

namespace Arena

variable {a b : Arena}

/-- The scopes, but for what they bind. -/
def bare (a : Arena) : List Scope :=
  a.scopes.map fun s => { s with bindings := [] }

theorem skeleton_of_bare (h : b.bare = a.bare) : b.skeleton = a.skeleton := by
  have hmap := congrArg (List.map fun s : Scope => (s.kind, s.parent, s.children, s.index)) h
  rw [bare, bare, List.map_map, List.map_map] at hmap
  exact hmap

theorem bare_declare (a : Arena) (i : Nat) (name : String) (definition : Definition) :
    (a.declare i name definition).bare = a.bare :=
  map_modify_of_unseen a.scopes i fun _ => rfl

theorem bare_openScope (a : Arena) (kind : ScopeKind) (node : Node) (p : Nat) :
    (a.openScope kind node (some p)).bare =
      a.bare.modify p (fun s => { s with children := s.children ++ [a.size] }) ++
        [{ index := a.size, kind, node, parent := some p }] :=
  map_openScope a kind node p fun _ => rfl

/-- The second arena has the scopes of the first one, and some definitions are put in between those that it
has. -/
structure Beside (extra : String → Nat → List Definition) (a b : Arena) : Prop where
  /-- the scopes are the same -/
  bare : b.bare = a.bare
  /-- the definitions are the extra ones and the old ones -/
  definitions : ∀ name i, Interleaved (extra name i) (a.definitions name i) (b.definitions name i)

namespace Beside

variable {extra : String → Nat → List Definition}

theorem refl (a : Arena) : Beside (fun _ _ => []) a a :=
  ⟨rfl, fun _ _ => .nil_left _⟩

theorem skeleton (h : Beside extra a b) : b.skeleton = a.skeleton :=
  skeleton_of_bare h.bare

theorem size_eq (h : Beside extra a b) : b.size = a.size :=
  size_eq_of_skeleton h.skeleton

theorem openScope (h : Beside extra a b) (kind : ScopeKind) (node : Node) (p : Nat) :
    Beside extra (a.openScope kind node (some p)) (b.openScope kind node (some p)) := by
  constructor
  · rw [bare_openScope, bare_openScope, h.bare, h.size_eq]
  · intro name i
    rw [definitions_openScope, definitions_openScope]
    exact h.definitions name i

/-- A definition that comes in both arenas is no extra one, … -/
theorem declare (h : Beside extra a b) {i : Nat} (hi : i < a.size) (name : String) (definition : Definition) :
    Beside extra (a.declare i name definition) (b.declare i name definition) := by
  constructor
  · rw [bare_declare, bare_declare, h.bare]
  · intro other j
    rw [definitions_declare hi, definitions_declare (h.size_eq ▸ hi)]
    split
    · exact (h.definitions other j).concat_right definition
    · simpa only [List.append_nil] using h.definitions other j

/-- … and one that comes in the second arena only is. -/
theorem declare_extra (h : Beside extra a b) {i : Nat} (hi : i < a.size) (name : String)
    (definition : Definition) :
    Beside (fun other j => extra other j ++ if other = name ∧ j = i then [definition] else []) a
      (b.declare i name definition) := by
  constructor
  · rw [bare_declare, h.bare]
  · intro other j
    rw [definitions_declare (h.size_eq ▸ hi)]
    split
    · exact (h.definitions other j).concat_left definition
    · simpa only [List.append_nil] using h.definitions other j

end Beside

end Arena

namespace Item

open Arena

theorem stable_beside (extra : String → Nat → List Definition) : Stable (Beside extra) := by
  constructor
  · intro a b h
    exact h.size_eq
  · intro a b kind node p h _ _
    exact h.openScope kind node p
  · intro a b i binder name node h hroot hi
    rw [enter, enter, varScope_of_skeleton h.skeleton]
    exact h.declare (inside_enter hroot hi binder).2 name _

end Item

namespace Outline

open Arena Item

/-! ## Playing the two readings -/

/-- The definitions that a declaration gives to a name by the leaves of its pattern, in order. -/
def leafDefinitions (source : Bytes) (binder : Binder) (leaves : List Site) (name : String) :
    List Definition :=
  (leaves.filter (·.node.text source = name)).map fun leaf => ⟨binder.kind, leaf.node, binder.node⟩

theorem leafDefinitions_cons (source : Bytes) (binder : Binder) (leaf : Site) (leaves : List Site)
    (name : String) :
    leafDefinitions source binder (leaf :: leaves) name =
      (if name = leaf.node.text source then [⟨binder.kind, leaf.node, binder.node⟩] else []) ++
        leafDefinitions source binder leaves name := by
  rw [leafDefinitions, List.filter_cons]
  by_cases hname : name = leaf.node.text source
  · simp [hname, leafDefinitions]
  · simp [hname, leafDefinitions, Ne.symm hname]

/-- **The two readings played beside each other**: the leaves become uses in one and definitions in the other,
and everything else is the same. -/
theorem Alike.play {source : Bytes} {binder : Binder} {leaves : List Site} {written bound : List Item}
    (h : Alike source binder leaves written bound) {extra : String → Nat → List Definition} {a b : Arena}
    (hbeside : Beside extra a b) (hroot : a.Rooted) {i home : Nat} (hi : a.Inside i)
    (hhome : (if binder.hoisted then a.varScope i else i) = home) :
    Beside (fun name j => extra name j ++ if j = home then leafDefinitions source binder leaves name else [])
        (playAll a i written).1 (playAll b i bound).1 ∧
      Interleaved (leaves.map fun leaf => { name := leaf.node.text source, site := leaf, scope := i })
        (playAll b i bound).2 (playAll a i written).2 := by
  induction h generalizing extra a b with
  | nil =>
    refine ⟨?_, .nil⟩
    simp only [playAll, leafDefinitions, List.filter_nil, List.map_nil, ite_self, List.append_nil]
    exact hbeside
  | @name leaf leaves written bound _ ih =>
    -- the first arena stays as it is, and the second one has a definition more
    have hlt : home < a.size := by
      rw [← hhome]
      exact (inside_enter hroot hi binder).2
    have hdeclared := hbeside.declare_extra hlt (leaf.node.text source) ⟨binder.kind, leaf.node, binder.node⟩
    have hhome' : (if binder.hoisted then b.varScope i else i) = home := by
      rw [varScope_of_skeleton hbeside.skeleton]
      exact hhome
    obtain ⟨hafter, huses⟩ := ih hdeclared hroot hi hhome
    simp only [playAll, Item.play, useOf, enter, hhome']
    refine ⟨?_, .left huses⟩
    have hextra : ∀ name j, (extra name j ++
        if j = home then leafDefinitions source binder (leaf :: leaves) name else []) =
      (extra name j ++ if name = leaf.node.text source ∧ j = home then
          [⟨binder.kind, leaf.node, binder.node⟩] else []) ++
        if j = home then leafDefinitions source binder leaves name else [] := by
      intro name j
      by_cases hj : j = home
      · simp only [hj, if_true, and_true, leafDefinitions_cons, List.append_assoc]
      · simp only [hj, if_false, and_false, List.append_nil]
    simp only [hextra]
    exact hafter
  | @same item leaves written bound _ ih =>
    obtain ⟨hitem, huses⟩ := play_related (stable_beside extra) hbeside hroot hi item
    obtain ⟨opened, hgrown⟩ := play_grown hroot.descending hi.2 item
    -- the item opens scopes, but names that are hoisted from here go where they went
    have hhome' : (if binder.hoisted then (Item.play a i item).1.varScope i else i) = home := by
      rw [varScope_of_old hroot.descending hgrown.descending hgrown.keepsShape hi.2]
      exact hhome
    obtain ⟨hafter, hmore⟩ := ih hitem (play_rooted hroot hi item) (hi.mono (size_le_play hi item)) hhome'
    simp only [playAll, huses]
    exact ⟨hafter, hmore.append_left _⟩

/-- **A declaration binds what an assignment to its pattern writes to.** From any scope inside a file, in any
arena whose scopes stand in a tree, read a pattern whose names have text as a declaration and as the target
of an assignment. Both open the same scopes, with the same syntax, parents and children. The uses of the
assignment are those of the declaration and the names of the pattern, each used in the scope of the pattern;
the declarations of the declaration are those of the assignment and the same names. In the scope where
the declaration binds it adds them to the definitions, in their order, and all other definitions agree. -/
theorem pattern_declares_what_it_assigns (source : Bytes) (above : List Node) (binder : Binder)
    (pattern : Node) (hnames : ∀ leaf ∈ leaves above pattern, leaf.node.text source ≠ "") {a : Arena}
    (hroot : a.Rooted) {i : Nat} (hi : a.Inside i) :
    let bound := playAll a i (read source above (.binding binder) pattern)
    let written := playAll a i (read source above .target pattern)
    let names := leaves above pattern
    let home := if binder.hoisted then a.varScope i else i
    bound.1.bare = written.1.bare ∧
      Interleaved (names.map fun leaf => { name := leaf.node.text source, site := leaf, scope := i })
        bound.2 written.2 ∧
      Interleaved (names.map fun leaf => (binder, leaf.node.text source, leaf.node))
        (declarationsAll (read source above .target pattern))
        (declarationsAll (read source above (.binding binder) pattern)) ∧
      ∀ name j, Interleaved (if j = home then leafDefinitions source binder names name else [])
        (written.1.definitions name j) (bound.1.definitions name j) := by
  intro bound written names home
  have halike : Alike source binder names _ _ := alike_read above pattern hnames
  obtain ⟨hbeside, huses⟩ := halike.play (.refl a) hroot hi rfl
  exact ⟨hbeside.bare, huses, halike.declarationsAll, hbeside.definitions⟩

/-- A pattern in a block, with a computed key, default values and a function that declares names of its own. -/
def scatteredSource : Bytes :=
  Utf8.encode "{var {a,[k]:[c=function(d){var e=d},...r]=q}=f}".toList

/-- The pattern and the nodes above it. -/
def scatteredPath : List Node :=
  ["statement_block", "variable_declaration", "variable_declarator", "object_pattern"].foldl
    (fun path kind => ((path.head?.bind fun node => node.children.find? (·.kind == kind)).toList) ++ path)
    [Script.parse scatteredSource]

/-- The arena in which the block is read. -/
def scatteredArena : Arena :=
  (ScopeTree.initialArena (Script.parse scatteredSource) []).openScope .block
    ((scatteredPath[2]?).getD default) (some 1)

/-- The names are hoisted to the module's scope, whose place is `1`. -/
theorem pattern_declares_what_it_assigns_scattered :
    let pattern := scatteredPath.headD default
    let above := scatteredPath.tail
    let binder : Binder := ⟨.declarator, above.headD default, true⟩
    let bound := playAll scatteredArena 2 (read scatteredSource above (.binding binder) pattern)
    let written := playAll scatteredArena 2 (read scatteredSource above .target pattern)
    bound.2.map (·.name) = ["k", "d", "q"] ∧ written.2.map (·.name) = ["a", "k", "c", "d", "r", "q"] ∧
      bound.1.size = 4 ∧ bound.1.bare = written.1.bare ∧
      ∀ name, Interleaved (leafDefinitions scatteredSource binder (leaves above pattern) name)
        (written.1.definitions name 1) (bound.1.definitions name 1) := by
  intro pattern above binder bound written
  -- all of these are read off one tree, so they are computed together
  have hfacts : (∀ leaf ∈ leaves above pattern, leaf.node.text scatteredSource ≠ "") ∧
      bound.2.map (·.name) = ["k", "d", "q"] ∧ written.2.map (·.name) = ["a", "k", "c", "d", "r", "q"] ∧
      bound.1.size = 4 ∧ scatteredArena.varScope 2 = 1 := by
    decide +kernel
  obtain ⟨hnames, hbound, hwritten, hsize, hhome⟩ := hfacts
  have htop := ScopeTree.initialArena_rooted (Script.parse scatteredSource) []
  have hroot : scatteredArena.Rooted := htop.openScope .block _ htop.inside_one
  have hinside : scatteredArena.Inside 2 := htop.inside_one.openScope_size .block _
  obtain ⟨hbare, -, -, hdefinitions⟩ :=
    pattern_declares_what_it_assigns scatteredSource above binder pattern hnames hroot hinside
  refine ⟨hbound, hwritten, hsize, hbare, ?_⟩
  intro name
  have hname := hdefinitions name 1
  simp only [binder, if_true, hhome] at hname
  exact hname

end Outline

end LoggerLint
