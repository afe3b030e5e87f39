import LoggerLint.Console.Prologue
import LoggerLint.Scope.Analysis

/-!
# What `console` means in a file

A use of `console` is the native one only if the file does not declare the name itself. Seen from the
top of the file there are three cases: the module declares it, so the file is left alone; it is a
configured ambient global, whose uses are known; or nothing binds it, and its uses are among those that
nothing binds.
-/

namespace LoggerLint.Console

/-- The global that the rule is about. -/
def globalName : String := "console"

/-- How the global is bound at the top of a file. -/
inductive Binding where
  /-- the file declares the name itself -/
  | shadowed
  /-- the name is a configured ambient global -/
  | ambient
  /-- nothing binds the name -/
  | unresolved
  deriving DecidableEq, Repr, Inhabited

namespace Binding

/-- The word for a kind of binding. -/
def word : Binding → String
  | .shadowed => "shadowed"
  | .ambient => "ambient"
  | .unresolved => "unresolved"

end Binding

/-- How the global is bound, and its uses. -/
structure Resolution where
  /-- how it is bound -/
  binding : Binding
  /-- its uses, in the order in which they were met -/
  references : List Reference := []
  deriving Repr, Inhabited

/-- How the global is bound at the top of an arena. -/
def resolve (arena : Arena) (top : Arena.Top) : Resolution :=
  match arena.resolve top.module? globalName with
  | none => ⟨.unresolved, top.global.through.filter (·.name == globalName)⟩
  | some found =>
    if found.definitions.isEmpty then ⟨.ambient, found.references⟩ else ⟨.shadowed, []⟩

/-- Does the top of an arena bind the shared logger's name? -/
def loggerIsBound (arena : Arena) (top : Arena.Top) : Bool :=
  (arena.resolve top.module? Prologue.loggerName).isSome

end LoggerLint.Console
