import LoggerLint.Syntax.Node

/-!
# Scopes

The lexical scopes of a file stand in one list, the arena; a scope is known by its place there and
names its parent by place. Scopes are only ever appended, so a place once given stays good.

* `Arena.chain` is the way from a scope up to the outermost one;
* `Arena.resolve` finds the nearest binding of a name on that way;
* `Arena.varScope` finds the scope that a hoisted declaration binds in.

A chain has no more members than the arena has scopes, which is also what ends the walk.
-/

namespace LoggerLint

/-- The kinds of lexical scope. -/
inductive ScopeKind where
  | global | module | function | block | catchClause | classBody | loop | switchBody
  deriving DecidableEq, Repr, Inhabited

namespace ScopeKind

/-- The word for a kind of scope. -/
def word : ScopeKind → String
  | .global => "global"
  | .module => "module"
  | .function => "function"
  | .block => "block"
  | .catchClause => "catch"
  | .classBody => "class"
  | .loop => "for"
  | .switchBody => "switch"

/-- Do hoisted declarations stop at a scope of this kind? -/
def holdsVars : ScopeKind → Bool
  | .function | .module | .global => true
  | _ => false

end ScopeKind

/-- What kind of syntax introduced a binding. -/
inductive DefinitionKind where
  | declarator | parameter | functionName | className | importBinding | catchClause
  deriving DecidableEq, Repr, Inhabited

namespace DefinitionKind

/-- The words for a kind of definition. -/
def word : DefinitionKind → String
  | .declarator => "variable"
  | .parameter => "parameter"
  | .functionName => "function_name"
  | .className => "class_name"
  | .importBinding => "import_binding"
  | .catchClause => "catch_clause"

end DefinitionKind

/-- A declaring occurrence of a name. -/
structure Definition where
  /-- the kind of declaration -/
  kind : DefinitionKind
  /-- the node that spells the name -/
  nameNode : Node
  /-- the declaring node -/
  node : Node
  deriving Repr, Inhabited

/-- A use of a name. -/
structure Reference where
  /-- the name -/
  name : String
  /-- where the name stands -/
  site : Site
  /-- the scope it is used in -/
  scope : Nat
  /-- the scope of the variable it denotes, once that is known -/
  target : Option Nat := none
  deriving Repr, Inhabited

/-- A name bound in one scope. An ambient global is a variable without definitions. -/
structure Variable where
  /-- the name -/
  name : String
  /-- the scope that binds it -/
  scope : Nat
  /-- its declarations, in order -/
  definitions : List Definition := []
  /-- its uses, in order -/
  references : List Reference := []
  deriving Repr, Inhabited

/-- The variables of one scope under their names, in order of first declaration. -/
abbrev Bindings := List (String × Variable)

namespace Bindings

/-- The variable under a name. -/
def get? (bindings : Bindings) (name : String) : Option Variable :=
  bindings.lookup name

/-- Change the variable under a name, which starts as `fresh` when there is none. -/
def alter (name : String) (fresh : Variable) (change : Variable → Variable) : Bindings → Bindings
  | [] => [(name, change fresh)]
  | (key, v) :: rest =>
    if key = name then (key, change v) :: rest
    else (key, v) :: alter name fresh change rest

/-- Put a variable under a name. -/
def insert (bindings : Bindings) (name : String) (v : Variable) : Bindings :=
  bindings.alter name v fun _ => v

end Bindings

/-- One lexical scope. -/
structure Scope where
  /-- its place in the arena -/
  index : Nat := 0
  /-- the kind of scope -/
  kind : ScopeKind
  /-- the syntax that opens it -/
  node : Node
  /-- the scope around it -/
  parent : Option Nat
  /-- the scopes directly inside it -/
  children : List Nat := []
  /-- its variables -/
  bindings : Bindings := []
  /-- uses that no scope binds; kept by the outermost scope -/
  through : List Reference := []
  deriving Repr, Inhabited

/-- The scopes of a file. -/
structure Arena where
  /-- the scopes; a scope is known by its place -/
  scopes : List Scope := []
  deriving Repr, Inhabited

namespace Arena

/-- The scope at a place. -/
def get? (arena : Arena) (i : Nat) : Option Scope :=
  arena.scopes[i]?

/-- How many scopes there are. -/
def size (arena : Arena) : Nat :=
  arena.scopes.length

/-- Change the scope at a place. -/
def modify (arena : Arena) (i : Nat) (change : Scope → Scope) : Arena :=
  ⟨arena.scopes.modify i change⟩

/-- The places from `start` up along the parents, at most `steps` of them. -/
def chainFrom (arena : Arena) : (steps : Nat) → (start : Option Nat) → List Nat
  | 0, _ => []
  | _ + 1, none => []
  | steps + 1, some i =>
    match arena.get? i with
    | none => []
    | some scope => i :: arena.chainFrom steps scope.parent

/-- The way from a scope up to the outermost one. -/
def chain (arena : Arena) (start : Option Nat) : List Nat :=
  arena.chainFrom arena.size start

/-- The variable that the scope at a place binds to a name. -/
def lookup? (arena : Arena) (name : String) (i : Nat) : Option Variable :=
  (arena.get? i).bind (·.bindings.get? name)

/-- The nearest binding of a name, seen from a scope. -/
def resolve (arena : Arena) (start : Option Nat) (name : String) : Option Variable :=
  (arena.chain start).findSome? (arena.lookup? name)

/-- Does the scope at this place hold hoisted declarations? -/
def holdsVarsAt (arena : Arena) (i : Nat) : Bool :=
  (arena.get? i).any (·.kind.holdsVars)

/-- The scope in which a hoisted declaration at `i` binds: the nearest that holds such declarations,
or else the outermost. -/
def varScope (arena : Arena) (i : Nat) : Nat :=
  let chain := arena.chain (some i)
  (chain.find? arena.holdsVarsAt).getD (chain.getLast?.getD i)

/-! ## Growing -/

/-- Append a scope and enter it among its parent's children. -/
def openScope (arena : Arena) (kind : ScopeKind) (node : Node) (parent : Option Nat) : Arena :=
  let scope : Scope := { index := arena.size, kind, node, parent }
  let entered :=
    match parent with
    | none => arena
    | some p => arena.modify p fun s => { s with children := s.children ++ [arena.size] }
  ⟨entered.scopes ++ [scope]⟩

/-- Add a definition of a name to the scope at a place. -/
def declare (arena : Arena) (i : Nat) (name : String) (definition : Definition) : Arena :=
  arena.modify i fun s =>
    { s with
      bindings := s.bindings.alter name { name, scope := i } fun v =>
        { v with definitions := v.definitions ++ [definition] } }

/-- Let the scope at a place bind a name without any definition. -/
def declareAmbient (arena : Arena) (i : Nat) (name : String) : Arena :=
  arena.modify i fun s => { s with bindings := s.bindings.alter name { name, scope := i } id }

/-- Enter a use with the variable it denotes, or with the outermost scope if it denotes none. -/
def settle (arena : Arena) (reference : Reference) : Arena :=
  match arena.resolve (some reference.scope) reference.name with
  | none => arena.modify 0 fun s => { s with through := s.through ++ [reference] }
  | some found =>
    let settled := { reference with target := some found.scope }
    arena.modify found.scope fun s =>
      { s with
        bindings := s.bindings.alter reference.name found fun v =>
          { v with references := v.references ++ [settled] } }

/-! ## The top of the file -/

/-- The outermost scope, and within it the one of the module: the first child, if there is any. An
arena without scopes, or whose first child is not among them, has no top. -/
structure Top where
  /-- the outermost scope -/
  global : Scope
  /-- the place of the module's scope -/
  module? : Option Nat
  deriving Repr

/-- The top of an arena. -/
def top? (arena : Arena) : Option Top :=
  match arena.get? 0 with
  | none => none
  | some global =>
    match global.children.head? with
    | none => some ⟨global, none⟩
    | some i => (arena.get? i).map fun _ => ⟨global, some i⟩

end Arena

end LoggerLint
