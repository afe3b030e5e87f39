import LoggerLint.Scope.Arena

/-!
# The outline of a file

What matters for scoping in a syntax tree is little: which names are used, which are declared, and
where a scope opens. `outline` reads a tree into a list of such `Item`s, in the order in which a reader
of the file meets them; it knows the constructs of JavaScript and nothing of arenas. Running an outline
(`LoggerLint.Scope.Analysis`) knows arenas and nothing of JavaScript.

A node is read in one of three roles. As an expression its names are used; as a binding pattern they
are declared; as the target of a destructuring assignment they are used again. Default values and
computed keys are ordinary expressions in every role.
-/

namespace LoggerLint

/-- How a declaration enters the names it binds. -/
structure Binder where
  /-- the kind of declaration -/
  kind : DefinitionKind
  /-- the declaring node -/
  node : Node
  /-- the names belong to the nearest scope that holds hoisted declarations -/
  hoisted : Bool := false
  deriving Repr, Inhabited

/-- One step of an outline, seen from a current scope. -/
inductive Item where
  /-- a name is used -/
  | use (name : String) (site : Site)
  /-- a name is declared -/
  | declare (binder : Binder) (name : String) (nameNode : Node)
  /-- a scope opens, and the items happen in it -/
  | scope (kind : ScopeKind) (node : Node) (items : List Item)
  deriving Repr, Inhabited

namespace Outline

/-! ## Kinds of construct -/

/-- How a node takes part in scoping. -/
inductive Form where
  /-- a name in expression position -/
  | name
  /-- an import -/
  | importing
  /-- an export -/
  | exporting
  /-- a list of declarators -/
  | declarators (hoisted : Bool)
  /-- a function; a declared one binds its name outside, any other inside -/
  | function (declared : Bool)
  /-- a class; a declared one binds its name outside, any other inside -/
  | classBody (declared : Bool)
  /-- a block of statements -/
  | block
  /-- a loop with a head of three parts -/
  | forLoop
  /-- a loop over keys or elements -/
  | forIn
  /-- a handler of exceptions -/
  | catchClause
  /-- a switch -/
  | switchStatement
  /-- an assignment -/
  | assignment
  /-- anything else: only its children matter -/
  | other
  deriving DecidableEq, Repr

/-- The form of a kind of node. -/
def Form.ofKind (kind : String) : Form :=
  match kind with
  | "identifier" | "shorthand_property_identifier" => .name
  | "import_statement" => .importing
  | "export_statement" => .exporting
  | "variable_declaration" => .declarators true
  | "lexical_declaration" => .declarators false
  | "function_declaration" | "generator_function_declaration" => .function true
  | "function_expression" | "function" | "generator_function" | "arrow_function"
  | "method_definition" => .function false
  | "class_declaration" => .classBody true
  | "class" => .classBody false
  | "statement_block" => .block
  | "for_statement" => .forLoop
  | "for_in_statement" => .forIn
  | "catch_clause" => .catchClause
  | "switch_statement" => .switchStatement
  | "assignment_expression" | "augmented_assignment_expression" => .assignment
  | _ => .other

/-- How a node takes part in a pattern. -/
inductive PatternForm where
  /-- a name -/
  | name
  /-- a group of patterns -/
  | group
  /-- a key with a pattern for its value -/
  | pair
  /-- a pattern with a default value -/
  | withDefault
  /-- a comment -/
  | comment
  /-- anything else: an expression -/
  | expression
  deriving DecidableEq, Repr

/-- The form of a kind of node inside a pattern. -/
def PatternForm.ofKind (kind : String) : PatternForm :=
  match kind with
  | "identifier" | "shorthand_property_identifier_pattern" => .name
  | "object_pattern" | "array_pattern" | "rest_pattern" => .group
  | "pair_pattern" => .pair
  | "assignment_pattern" | "object_assignment_pattern" => .withDefault
  | "comment" => .comment
  | _ => .expression

/-- In what role a node is read. -/
inductive Role where
  /-- an expression or a statement -/
  | expression
  /-- a pattern whose names are declared -/
  | binding (binder : Binder)
  /-- a pattern whose names are written to -/
  | target
  deriving Repr

/-- The form of a kind of node in a role; nothing is a pattern in an expression. -/
def Role.patternForm : Role → String → PatternForm
  | .expression, _ => .expression
  | .binding _, kind => .ofKind kind
  | .target, kind => .ofKind kind

/-- In what role the left side of an assignment is read. -/
def Role.ofTarget (kind : String) : Role :=
  if kind == "object_pattern" || kind == "array_pattern" then .target else .expression

/-! ## Single names -/

/-- A use of the name that a node spells. -/
def useOf (source : Bytes) (above : List Node) (node : Node) : Item :=
  .use (node.text source) ⟨node, above⟩

/-- A declaration of the name that a node spells; a node without text declares nothing. -/
def declared (source : Bytes) (binder : Binder) (nameNode : Node) : List Item :=
  let name := nameNode.text source
  if name = "" then [] else [.declare binder name nameNode]

/-- What the name of a pattern means in a role. -/
def named (source : Bytes) (above : List Node) (role : Role) (node : Node) : List Item :=
  match role with
  | .binding binder => declared source binder node
  | .expression | .target => [useOf source above node]

/-- A declaration of the name in field `name`, if there is one. -/
def declaredName (source : Bytes) (binder : Binder) (node : Node) : List Item :=
  ((node.child? "name").map (declared source binder)).getD []

/-- A declaration of the name in field `name`, if it is a plain identifier. -/
def declaredIdentifier (source : Bytes) (binder : Binder) (node : Node) : List Item :=
  ((node.child? "name").map fun name =>
    if name.kind == "identifier" then declared source binder name else []).getD []

/-! ## Imports and exports -/

/-- The node of the local name that an import specifier binds. -/
def localName? (specifier : Node) : Option Node :=
  if specifier.kind == "import_specifier" then
    ((specifier.child? "alias").or (specifier.child? "name")).filter (·.kind == "identifier")
  else
    none

/-- The nodes of the names that one part of an import clause binds. -/
def importedNames (item : Node) : List Node :=
  match item.kind with
  | "identifier" => [item]
  | "namespace_import" => item.namedChildren.filter (·.kind == "identifier")
  | "named_imports" => item.namedChildren.filterMap localName?
  | _ => []

/-- The declarations of an import statement. -/
def imported (source : Bytes) (node : Node) : List Item :=
  let clauses := node.namedChildren.filter (·.kind == "import_clause")
  let names := clauses.flatMap fun clause => clause.namedChildren.flatMap importedNames
  names.flatMap (declared source ⟨.importBinding, node, false⟩)

/-- The names that an export clause uses; it stands below `above`. -/
def exportedNames (source : Bytes) (above : List Node) (clause : Node) : List Item :=
  (clause.namedChildren.filter (·.kind == "export_specifier")).filterMap fun specifier =>
    ((specifier.child? "name").filter (·.kind == "identifier")).map
      (useOf source (specifier :: clause :: above))

/-! ## Loop heads -/

/-- The keyword with which the head of a loop over elements declares its names, if it does. -/
def loopKeyword? (source : Bytes) (node : Node) : Option String :=
  match node.child? "kind" with
  | some keyword => some (keyword.text source)
  | none => (node.children.find? fun child =>
      child.kind == "var" || child.kind == "let" || child.kind == "const").map (·.kind)

/-- In what role the left side of the head of a loop over elements is read. -/
def loopRole (source : Bytes) (node : Node) : Role :=
  match loopKeyword? source node with
  | none => .target
  | some keyword => .binding ⟨.declarator, node, keyword == "var"⟩

/-! ## Whole trees

Every function takes the nodes around the ones it reads, the innermost first. Those on a list of
children either read all of it, or look for the first child in a field. -/

mutual

/-- What a node means for scoping when it is read in a role. -/
def read (source : Bytes) (above : List Node) (role : Role) : Node → List Item
  | ⟨label, children⟩ =>
    let node : Node := ⟨label, children⟩
    let inner := node :: above
    match role.patternForm label.kind with
    | .name => named source above role node
    | .group => readAll source inner role children
    | .pair =>
      readComputed source inner "key" children ++ readField source inner role "value" children
    | .withDefault =>
      readField source inner role "left" children ++
        readField source inner .expression "right" children
    | .comment => []
    | .expression =>
      match Form.ofKind label.kind with
      | .name => [useOf source above node]
      | .importing => imported source node
      | .exporting => readExported source inner (node.child? "source").isSome children
      | .declarators hoisted => readDeclarators source inner hoisted children
      | .function isDeclared =>
        (if isDeclared then declaredName source ⟨.functionName, node, false⟩ node else []) ++
        readComputed source inner "name" children ++
        [.scope .function node
          ((if isDeclared then []
            else declaredIdentifier source ⟨.functionName, node, false⟩ node) ++
            readWithin source inner (.binding ⟨.parameter, node, false⟩) "parameters" children ++
            readField source inner (.binding ⟨.parameter, node, false⟩) "parameter" children ++
            readBody source inner children)]
      | .classBody isDeclared =>
        (if isDeclared then declaredName source ⟨.className, node, false⟩ node else []) ++
        readHeritage source inner children ++
        [.scope .classBody node
          ((if isDeclared then [] else declaredIdentifier source ⟨.className, node, false⟩ node) ++
            readWithin source inner .expression "body" children)]
      | .block => [.scope .block node (readAll source inner .expression children)]
      | .forLoop => [.scope .loop node (readAll source inner .expression children)]
      | .forIn =>
        [.scope .loop node
          (readField source inner (loopRole source node) "left" children ++
            readField source inner .expression "right" children ++
            readField source inner .expression "body" children)]
      | .catchClause =>
        [.scope .catchClause node
          (readField source inner (.binding ⟨.catchClause, node, false⟩) "parameter" children ++
            readField source inner .expression "body" children)]
      | .switchStatement =>
        readField source inner .expression "value" children ++
          readSwitchBody source inner children
      | .assignment =>
        readTarget source inner children ++ readField source inner .expression "right" children
      | .other => readAll source inner .expression children
termination_by structural node => node

/-- Read every named node in one role. -/
def readAll (source : Bytes) (above : List Node) (role : Role) : List Node → List Item
  | [] => []
  | node :: rest =>
    (if node.named then read source above role node else []) ++ readAll source above role rest
termination_by structural nodes => nodes

/-- Read the node in a field. -/
def readField (source : Bytes) (above : List Node) (role : Role) (field : String) :
    List Node → List Item
  | [] => []
  | node :: rest =>
    if node.inField field then read source above role node
    else readField source above role field rest
termination_by structural nodes => nodes

/-- Read the children of the node in a field. -/
def readWithin (source : Bytes) (above : List Node) (role : Role) (field : String) :
    List Node → List Item
  | [] => []
  | ⟨label, children⟩ :: rest =>
    if label.field == some field then readAll source (⟨label, children⟩ :: above) role children
    else readWithin source above role field rest
termination_by structural nodes => nodes

/-- Read the node in a field if it is a computed key. -/
def readComputed (source : Bytes) (above : List Node) (field : String) : List Node → List Item
  | [] => []
  | node :: rest =>
    if node.inField field then
      if node.kind == "computed_property_name" then read source above .expression node else []
    else
      readComputed source above field rest
termination_by structural nodes => nodes

/-- Read the body of a function; a block there opens no scope of its own. -/
def readBody (source : Bytes) (above : List Node) : List Node → List Item
  | [] => []
  | ⟨label, children⟩ :: rest =>
    if label.field == some "body" then
      if label.kind == "statement_block" then
        readAll source (⟨label, children⟩ :: above) .expression children
      else
        read source above .expression ⟨label, children⟩
    else
      readBody source above rest
termination_by structural nodes => nodes

/-- Read the children of every heritage clause of a class. -/
def readHeritage (source : Bytes) (above : List Node) : List Node → List Item
  | [] => []
  | ⟨label, children⟩ :: rest =>
    (if label.named && label.kind == "class_heritage" then
      readAll source (⟨label, children⟩ :: above) .expression children
    else []) ++ readHeritage source above rest
termination_by structural nodes => nodes

/-- Open the scope of a switch body and read its cases. -/
def readSwitchBody (source : Bytes) (above : List Node) : List Node → List Item
  | [] => []
  | ⟨label, children⟩ :: rest =>
    if label.field == some "body" then
      [.scope .switchBody ⟨label, children⟩
        (readAll source (⟨label, children⟩ :: above) .expression children)]
    else
      readSwitchBody source above rest
termination_by structural nodes => nodes

/-- Read the left side of an assignment. -/
def readTarget (source : Bytes) (above : List Node) : List Node → List Item
  | [] => []
  | node :: rest =>
    if node.inField "left" then read source above (.ofTarget node.kind) node
    else readTarget source above rest
termination_by structural nodes => nodes

/-- Read what an export statement holds. A clause with a source only passes names on; otherwise it
uses them. -/
def readExported (source : Bytes) (above : List Node) (passedOn : Bool) : List Node → List Item
  | [] => []
  | node :: rest =>
    (if !node.named then []
      else if node.kind == "export_clause" then
        if passedOn then [] else exportedNames source above node
      else if node.kind == "string" || node.kind == "namespace_export" then []
      else read source above .expression node) ++ readExported source above passedOn rest
termination_by structural nodes => nodes

/-- Bind the name of every declarator and read its value. -/
def readDeclarators (source : Bytes) (above : List Node) (hoisted : Bool) :
    List Node → List Item
  | [] => []
  | ⟨label, children⟩ :: rest =>
    (if label.named && label.kind == "variable_declarator" then
      let inner := ⟨label, children⟩ :: above
      readField source inner (.binding ⟨.declarator, ⟨label, children⟩, hoisted⟩) "name" children ++
        readField source inner .expression "value" children
    else []) ++ readDeclarators source above hoisted rest
termination_by structural nodes => nodes

end

end Outline

/-- What a whole tree means for scoping: its root's children, read in the module's scope. -/
def outline (source : Bytes) (root : Node) : List Item :=
  Outline.readAll source [root] .expression root.children

end LoggerLint
