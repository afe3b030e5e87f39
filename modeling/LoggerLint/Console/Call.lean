import LoggerLint.Console.Resolution
import LoggerLint.Console.Template

/-!
# Calls of the native console

`calls` picks, from the uses of `console`, those of the shape `console.error(…)`, `console.warn(…)` and
`console.info(…)`. `Call.replacement` writes the call of the module logger that takes the place of one.
Only literals and plain names are carried over. Errors and warnings swap their first two arguments, so
that the error object comes before the message; informational calls may also carry a template without
substitutions, whose escapes are resolved.
-/

namespace LoggerLint.Console

/-! ## Methods -/

/-- The methods of the native console that are replaced. -/
inductive Method where
  | error | warn | info
  deriving DecidableEq, Repr, Inhabited

namespace Method

/-- The name of a method. -/
def name : Method → String
  | .error => "error"
  | .warn => "warn"
  | .info => "info"

/-- The method of a name. -/
def ofName? (name : String) : Option Method :=
  [Method.error, .warn, .info].find? (·.name == name)

end Method

/-! ## Finding the calls -/

/-- A call of a method of the native console. -/
structure Call where
  /-- the use of the global -/
  reference : Reference
  /-- the whole call -/
  node : Node
  /-- the method called -/
  method : Method
  /-- the arguments, without comments -/
  arguments : List Node
  deriving Repr, Inhabited

/-- The member access whose object is this use. -/
def memberAccess? (reference : Reference) : Option Node :=
  match reference.site.parent? with
  | some member =>
    if member.kind == "member_expression" &&
        Node.same? (member.child? "object") (some reference.site.node) then
      some member
    else
      none
  | none => none

/-- The name of the member that is accessed. -/
def accessedProperty (source : Bytes) (member : Node) : String :=
  ((member.child? "property").map (·.text source)).getD ""

/-- The call whose function is this member access. -/
def callOf? (site : Site) (member : Node) : Option Node :=
  match site.grandparent? with
  | some call =>
    if call.kind == "call_expression" && Node.same? (call.child? "function") (some member) then
      some call
    else
      none
  | none => none

/-- The arguments of a call in parentheses; a tagged template has none. -/
def arguments? (call : Node) : Option (List Node) :=
  match call.child? "arguments" with
  | some arguments =>
    if arguments.kind == "arguments" then
      some (arguments.namedChildren.filter (·.kind != "comment"))
    else
      none
  | none => none

/-- The call that a use of the global is part of, if it is one to replace. -/
def call? (source : Bytes) (reference : Reference) : Option Call := do
  let member ← memberAccess? reference
  let method ← Method.ofName? (accessedProperty source member)
  let node ← callOf? reference.site member
  let arguments ← arguments? node
  return { reference, node, method, arguments }

/-- The calls to replace, in source order. -/
def calls (source : Bytes) (references : List Reference) : List Call :=
  (references.filterMap (call? source)).mergeSort fun a b => a.node.start ≤ b.node.start

/-! ## Carrying arguments over -/

mutual

/-- The expression inside parentheses that hold nothing else, however deep. -/
def unwrap : Node → Node
  | ⟨label, children⟩ =>
    if label.kind == "parenthesized_expression" then
      match unwrapAll children with
      | [inner] => inner
      | _ => ⟨label, children⟩
    else
      ⟨label, children⟩
termination_by structural node => node

/-- The expressions among these nodes, each without its parentheses. -/
def unwrapAll : List Node → List Node
  | [] => []
  | node :: rest =>
    if node.named && node.kind != "comment" then unwrap node :: unwrapAll rest
    else unwrapAll rest
termination_by structural nodes => nodes

end

/-- Is this a kind of literal or plain name, which is carried over as it is written? -/
def isPlain (kind : String) : Bool :=
  ["string", "number", "regex", "true", "false", "null", "identifier", "undefined"].contains kind

/-- The text of a literal or plain name. -/
def plainText? (source : Bytes) (argument : Node) : Option Text :=
  let node := unwrap argument
  if isPlain node.kind then some (.ofString (node.text source)) else none

/-- A backtick. -/
def backtick : CodePoint := .scalar '\x60'

/-- The text of a template without substitutions, between backticks and with its escapes resolved. An
empty text and one with a malformed escape are not carried over. -/
def templateText? (source : Bytes) (argument : Node) : Option Text :=
  let node := unwrap argument
  if node.kind == "template_string" &&
      !(node.namedChildren.any (·.kind == "template_substitution")) then
    match Template.cook ((node.text source).toList.drop 1).dropLast with
    | none | some [] => none
    | some cooked => some (backtick :: cooked ++ [backtick])
  else
    none

/-- Errors and warnings put the second argument first. -/
def swapFirstTwo : List Node → List Node
  | first :: second :: rest => second :: first :: rest
  | arguments => arguments

/-- The texts of the arguments that are carried over; empty ones are left out. -/
def argumentTexts (source : Bytes) (method : Method) (arguments : List Node) : List Text :=
  let texts :=
    match method with
    | .error | .warn => (swapFirstTwo arguments).filterMap (plainText? source)
    | .info => arguments.filterMap fun argument =>
        (templateText? source argument).or (plainText? source argument)
  texts.filter (!·.isEmpty)

/-- The call of the module logger that takes the place of a call. -/
def Call.replacement (source : Bytes) (call : Call) : Text :=
  .ofString (Prologue.moduleLoggerName ++ "." ++ call.method.name ++ "(") ++
    Text.join (.ofString ",") (argumentTexts source call.method call.arguments) ++
    .ofString ")"

end LoggerLint.Console
