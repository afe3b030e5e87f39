import LoggerLint.Log
import LoggerLint.Scope.Outline

/-!
# Scope analysis

The outline of a file is run twice over. First the items are played into an arena: scopes open, names
are declared, and the uses are collected with the scopes they stand in. Then every use is settled: it
goes to the nearest binding of its name in the finished arena, or to the uses that nothing binds. So a
declaration counts for every use in its scope, also for those before it.
-/

namespace LoggerLint

namespace Item

/-- Enter a definition of a name, seen from the scope at `current`. -/
def enter (arena : Arena) (current : Nat) (binder : Binder) (name : String) (nameNode : Node) :
    Arena :=
  let i := if binder.hoisted then arena.varScope current else current
  arena.declare i name ⟨binder.kind, nameNode, binder.node⟩

mutual

/-- Play an item from the scope at `current`: the arena it leaves, and the uses it made. -/
def play (arena : Arena) (current : Nat) : Item → Arena × List Reference
  | .use name site => (arena, [{ name, site, scope := current }])
  | .declare binder name nameNode => (enter arena current binder name nameNode, [])
  | .scope kind node items =>
    playAll (arena.openScope kind node (some current)) arena.size items
termination_by structural item => item

/-- Play items one after another. -/
def playAll (arena : Arena) (current : Nat) : List Item → Arena × List Reference
  | [] => (arena, [])
  | item :: rest =>
    let (arena, uses) := play arena current item
    let (arena, more) := playAll arena current rest
    (arena, uses ++ more)
termination_by structural items => items

end

end Item

/-- The scopes of one file, with the tree and the source they were read from. -/
structure ScopeTree where
  /-- the source -/
  source : Bytes
  /-- the root of its syntax tree -/
  root : Node
  /-- the scopes -/
  arena : Arena
  deriving Repr, Inhabited

namespace ScopeTree

/-- The arena before any of the file is read: the outermost scope with the ambient globals, and the
scope of the module. -/
def initialArena (root : Node) (globals : List String) : Arena :=
  let outermost := ({} : Arena).openScope .global root none
  let ambient := globals.foldl (fun arena name => arena.declareAmbient 0 name) outermost
  ambient.openScope .module root (some 0)

/-- The arena once the file is read, and all uses in the order in which they were met. -/
def walk (source : Bytes) (root : Node) (globals : List String) : Arena × List Reference :=
  Item.playAll (initialArena root globals) 1 (outline source root)

/-- Read the scopes of a file. -/
def analyze (source : Bytes) (root : Node) (globals : List String) : ScopeTree :=
  let (arena, uses) := walk source root globals
  ⟨source, root, uses.foldl Arena.settle arena⟩

/-- What the analysis says about itself. -/
def log (source : Bytes) (root : Node) (globals : List String) : List LogLine :=
  let (arena, uses) := walk source root globals
  let unbound := (uses.filter fun use => (arena.resolve (some use.scope) use.name).isNone).length
  [⟨.debug, "scope.analyzer",
    "resolved " ++ toString (uses.length - unbound) ++ " references, " ++ toString unbound ++
      " unresolved"⟩]

end ScopeTree

end LoggerLint
